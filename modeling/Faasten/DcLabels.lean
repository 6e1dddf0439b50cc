import Mathlib
import Faasten.Buckle

/-!
# Disjunction-category labels

An instance of `LabelCrate` that satisfies all its laws: labels as formulas in conjunctive normal
form over principals, where a principal speaks for every principal that extends its token list.
It shows that the laws are consistent, and it gives concrete labels to evaluate the model on.

Implication between formulas is clause by clause: every clause of the conclusion is implied by some
clause of the premise, and a clause implies another when each of its principals speaks for one of
the other's. All laws of flows follow from implication being a preorder with meets and joins.
-/

namespace Faasten

namespace Dc

open Std

/-- `a` implies `b`: every principal of `a` speaks for one of `b`. -/
def clauseImplies (a b : Clause) : Bool :=
  a.principals.toList.all fun p => b.principals.toList.any fun q => p.isPrefixOf q

/-- `a` implies `b`, clause by clause. -/
def implies : Component → Component → Bool
  | .dcFalse, _ => true
  | .dcFormula _, .dcFalse => false
  | .dcFormula cs, .dcFormula ds => ds.toList.all fun d => cs.toList.any fun c => clauseImplies c d

/-- Conjunction: all clauses of both. -/
def and : Component → Component → Component
  | .dcFormula cs, .dcFormula ds => .dcFormula (cs ∪ ds)
  | _, _ => .dcFalse

/-- Disjunction: every clause of one with every clause of the other. -/
def or : Component → Component → Component
  | .dcFalse, b => b
  | a, .dcFalse => a
  | .dcFormula cs, .dcFormula ds =>
      .formula (cs.toList.flatMap fun c => ds.toList.map fun d => ⟨c.principals ∪ d.principals⟩)

theorem clauseImplies_iff {a b : Clause} :
    clauseImplies a b ↔ ∀ p ∈ a.principals, ∃ q ∈ b.principals, p <+: q := by
  simp [clauseImplies]

theorem implies_formula_iff {cs ds : ExtTreeSet Clause compare} :
    implies (.dcFormula cs) (.dcFormula ds) ↔ ∀ d ∈ ds, ∃ c ∈ cs, clauseImplies c d := by
  simp [implies]

theorem clauseImplies_refl (a : Clause) : clauseImplies a a :=
  clauseImplies_iff.2 fun p hp => ⟨p, hp, List.prefix_rfl⟩

theorem clauseImplies_trans {a b c : Clause} (hab : clauseImplies a b) (hbc : clauseImplies b c) :
    clauseImplies a c := by
  rw [clauseImplies_iff] at *
  intro p hp
  obtain ⟨q, hq, hpq⟩ := hab p hp
  obtain ⟨r, hr, hqr⟩ := hbc q hq
  exact ⟨r, hr, hpq.trans hqr⟩

theorem implies_refl (a : Component) : implies a a := by
  cases a with
  | dcFalse => rfl
  | dcFormula cs => exact implies_formula_iff.2 fun c hc => ⟨c, hc, clauseImplies_refl c⟩

theorem implies_trans {a b c : Component} (hab : implies a b) (hbc : implies b c) :
    implies a c := by
  cases a with
  | dcFalse => rfl
  | dcFormula as =>
    cases b with
    | dcFalse => cases hab
    | dcFormula bs =>
      cases c with
      | dcFalse => cases hbc
      | dcFormula cs =>
        rw [implies_formula_iff] at *
        intro d hd
        obtain ⟨c, hc, hcd⟩ := hbc d hd
        obtain ⟨e, he, hec⟩ := hab c hc
        exact ⟨e, he, clauseImplies_trans hec hcd⟩

theorem implies_of_subset {cs ds : ExtTreeSet Clause compare} (h : ∀ d ∈ ds, d ∈ cs) :
    implies (.dcFormula cs) (.dcFormula ds) :=
  implies_formula_iff.2 fun d hd => ⟨d, h d hd, clauseImplies_refl d⟩

theorem and_implies_left (a b : Component) : implies (and a b) a := by
  cases a <;> cases b <;> try rfl
  exact implies_of_subset fun d hd => ExtTreeSet.mem_union_of_left hd

theorem and_implies_right (a b : Component) : implies (and a b) b := by
  cases a <;> cases b <;> try rfl
  exact implies_of_subset fun d hd => ExtTreeSet.mem_union_of_right hd

theorem implies_and {a b c : Component} (hb : implies a b) (hc : implies a c) :
    implies a (and b c) := by
  cases a with
  | dcFalse => rfl
  | dcFormula as =>
    cases b with
    | dcFalse => cases hb
    | dcFormula bs =>
      cases c with
      | dcFalse => cases hc
      | dcFormula cs =>
        refine implies_formula_iff.2 fun d hd => ?_
        rcases ExtTreeSet.mem_union_iff.1 hd with h | h
        · exact implies_formula_iff.1 hb d h
        · exact implies_formula_iff.1 hc d h

theorem implies_true (a : Component) : implies a .dcTrue := by
  cases a with
  | dcFalse => rfl
  | dcFormula cs => exact implies_of_subset fun d hd => absurd hd ExtTreeSet.not_mem_empty

/-- The clauses of a disjunction of formulas. -/
theorem mem_product {cs ds : ExtTreeSet Clause compare} {e : Clause} :
    e ∈ ExtTreeSet.ofList (cs.toList.flatMap fun c =>
        ds.toList.map fun d => (⟨c.principals ∪ d.principals⟩ : Clause)) compare ↔
      ∃ c ∈ cs, ∃ d ∈ ds, e = ⟨c.principals ∪ d.principals⟩ := by
  rw [ExtTreeSet.mem_ofList, List.contains_iff_mem]
  simp only [List.mem_flatMap, List.mem_map, ExtTreeSet.mem_toList]
  constructor
  · rintro ⟨c, hc, d, hd, rfl⟩; exact ⟨c, hc, d, hd, rfl⟩
  · rintro ⟨c, hc, d, hd, rfl⟩; exact ⟨c, hc, d, hd, rfl⟩

theorem implies_or_left (a b : Component) : implies a (or a b) := by
  cases a with
  | dcFalse => rfl
  | dcFormula as =>
    cases b with
    | dcFalse => exact implies_refl _
    | dcFormula bs =>
      refine implies_formula_iff.2 fun e he => ?_
      obtain ⟨c, hc, d, -, rfl⟩ := mem_product.1 he
      exact ⟨c, hc, clauseImplies_iff.2 fun p hp =>
        ⟨p, ExtTreeSet.mem_union_of_left hp, List.prefix_rfl⟩⟩

theorem implies_or_right (a b : Component) : implies b (or a b) := by
  cases b with
  | dcFalse => rfl
  | dcFormula bs =>
    cases a with
    | dcFalse => exact implies_refl _
    | dcFormula as =>
      refine implies_formula_iff.2 fun e he => ?_
      obtain ⟨c, -, d, hd, rfl⟩ := mem_product.1 he
      exact ⟨d, hd, clauseImplies_iff.2 fun p hp =>
        ⟨p, ExtTreeSet.mem_union_of_right hp, List.prefix_rfl⟩⟩

theorem or_implies {a b c : Component} (ha : implies a c) (hb : implies b c) :
    implies (or a b) c := by
  cases a with
  | dcFalse => exact hb
  | dcFormula as =>
    cases b with
    | dcFalse => exact ha
    | dcFormula bs =>
      cases c with
      | dcFalse => cases ha
      | dcFormula cs =>
        refine implies_formula_iff.2 fun e he => ?_
        obtain ⟨c, hc, hce⟩ := implies_formula_iff.1 ha e he
        obtain ⟨d, hd, hde⟩ := implies_formula_iff.1 hb e he
        refine ⟨⟨c.principals ∪ d.principals⟩, mem_product.2 ⟨c, hc, d, hd, rfl⟩, ?_⟩
        refine clauseImplies_iff.2 fun p hp => ?_
        rcases ExtTreeSet.mem_union_iff.1 hp with h | h
        · exact clauseImplies_iff.1 hce p h
        · exact clauseImplies_iff.1 hde p h

/-- Conjunction distributes over disjunction. -/
theorem or_and_implies {a b c p : Component} (ha : implies (and a p) c) (hb : implies (and b p) c) :
    implies (and (or a b) p) c := by
  cases a with
  | dcFalse => exact hb
  | dcFormula as =>
    cases b with
    | dcFalse => exact ha
    | dcFormula bs =>
      cases p with
      | dcFalse => rfl
      | dcFormula ps =>
        cases c with
        | dcFalse => cases ha
        | dcFormula cs =>
          refine implies_formula_iff.2 fun e he => ?_
          obtain ⟨c, hc, hce⟩ := implies_formula_iff.1 ha e he
          obtain ⟨d, hd, hde⟩ := implies_formula_iff.1 hb e he
          rcases ExtTreeSet.mem_union_iff.1 hc with hca | hcp
          · rcases ExtTreeSet.mem_union_iff.1 hd with hdb | hdp
            · have hmem := mem_product.2 ⟨c, hca, d, hdb, rfl⟩
              refine ⟨_, ExtTreeSet.mem_union_of_left hmem, clauseImplies_iff.2 fun p hp => ?_⟩
              rcases ExtTreeSet.mem_union_iff.1 hp with h | h
              · exact clauseImplies_iff.1 hce p h
              · exact clauseImplies_iff.1 hde p h
            · exact ⟨d, ExtTreeSet.mem_union_of_right hdp, hde⟩
          · exact ⟨c, ExtTreeSet.mem_union_of_right hcp, hce⟩

/-! ### Labels -/

/-- Less secret data may become more secret, trusted data less trusted. -/
def canFlowTo (a b : Buckle) : Bool :=
  implies b.secrecy a.secrecy && implies a.integrity b.integrity

/-- Flow with the help of a privilege. -/
def canFlowToWithPrivilege (a b : Buckle) (p : Component) : Bool :=
  implies (and b.secrecy p) a.secrecy && implies (and a.integrity p) b.integrity

/-- Drop the secrecy clauses that the privilege implies. -/
def downgrade (l : Buckle) (p : Component) : Buckle :=
  match l.secrecy with
  | .dcFalse => { l with secrecy := if p = .dcFalse then .dcTrue else .dcFalse }
  | .dcFormula cs =>
      { l with secrecy := .formula (cs.toList.filter fun c => !implies p (.formula [c])) }

/-- Labels are sorted by secrecy, then integrity; a component by its clauses, `dcFalse` first. -/
def rank : Component → List (List (List Principal))
  | .dcFalse => []
  | .dcFormula cs => [cs.toList.map fun c => c.principals.toList]

theorem rank_injective : Function.Injective rank := by
  intro a b h
  cases a with
  | dcFalse =>
    cases b with
    | dcFalse => rfl
    | dcFormula bs => cases h
  | dcFormula as =>
    cases b with
    | dcFalse => cases h
    | dcFormula bs =>
      have hinj : Function.Injective fun c : Clause => c.principals.toList := by
        rintro ⟨c⟩ ⟨d⟩ hcd
        exact congrArg Clause.mk (ExtTreeSet.toList_inj.1 hcd)
      have hl := (List.map_injective_iff.2 hinj) (List.singleton_inj.1 h)
      exact congrArg Component.dcFormula (ExtTreeSet.toList_inj.1 hl)

/-- The sort key of a label. -/
def key (l : Buckle) : List (List (List (List Principal))) := [rank l.secrecy, rank l.integrity]

theorem key_injective : Function.Injective key := by
  rintro ⟨s, i⟩ ⟨s', i'⟩ h
  simp only [key, List.cons.injEq, and_true] at h
  rw [rank_injective h.1, rank_injective h.2]

theorem implies_clause {cs : ExtTreeSet Clause compare} {c : Clause} (h : c ∈ cs) :
    implies (.dcFormula cs) (.formula [c]) := by
  refine implies_of_subset fun d hd => ?_
  rw [ExtTreeSet.mem_ofList, List.contains_iff_mem, List.mem_singleton] at hd
  exact hd ▸ h

theorem implies_of_clause {p : Component} {cs : ExtTreeSet Clause compare}
    (h : ∀ c ∈ cs, implies p (.formula [c])) : implies p (.dcFormula cs) := by
  cases p with
  | dcFalse => rfl
  | dcFormula ps =>
    refine implies_formula_iff.2 fun c hc => ?_
    refine implies_formula_iff.1 (h c hc) c ?_
    rw [ExtTreeSet.mem_ofList, List.contains_iff_mem]
    exact List.mem_singleton.2 rfl

theorem implies_downgrade (l : Buckle) (q t : Component) :
    implies (and q t) (downgrade l q).secrecy = implies (and q t) l.secrecy := by
  obtain ⟨s, i⟩ := l
  cases s with
  | dcFalse =>
    by_cases hq : q = .dcFalse
    · subst hq; rfl
    · simp [downgrade, hq]
  | dcFormula cs =>
    rw [Bool.eq_iff_iff]
    constructor
    · intro h
      refine implies_of_clause fun c hc => ?_
      by_cases hqc : implies q (.formula [c])
      · exact implies_trans (and_implies_left q t) hqc
      · refine implies_trans h (implies_clause ?_)
        rw [ExtTreeSet.mem_ofList, List.contains_iff_mem]
        exact List.mem_filter.2 ⟨ExtTreeSet.mem_toList.2 hc, by simpa using hqc⟩
    · intro h
      refine implies_trans h (implies_of_subset fun c hc => ?_)
      rw [ExtTreeSet.mem_ofList, List.contains_iff_mem] at hc
      exact ExtTreeSet.mem_toList.1 (List.mem_filter.1 hc).1

/-- `a/b` is a principal, `p|q` a clause, `c&d` a component, and so are `T` and `F`. -/
def parseComponent (s : List Char) : Option Component :=
  if s = ['T'] then some .dcTrue
  else if s = ['F'] then some .dcFalse
  else
    let cs := (s.splitOn '&').map fun c => (c.splitOn '|').map (List.splitOn '/')
    if cs.any fun c => c.any fun p => p.any List.isEmpty then none
    else some (.formula (cs.map fun c => .newFromVec (c.map fun p => p.map String.ofList)))

/-- A label is written as its secrecy and its integrity, with a comma between them. -/
def parse (s : String) : Option Buckle :=
  match s.toList.splitOn ',' with
  | [a, b] => do return ⟨← parseComponent a, ← parseComponent b⟩
  | _ => none

/-- The instance. -/
scoped instance crate : LabelCrate where
  implies := implies
  and := and
  publicLabel := ⟨.dcTrue, .dcTrue⟩
  lub a b := ⟨and a.secrecy b.secrecy, or a.integrity b.integrity⟩
  canFlowTo := canFlowTo
  canFlowToWithPrivilege := canFlowToWithPrivilege
  downgrade := downgrade
  parse := parse
  cmp a b := compare (key a) (key b)
  transCmp :=
    { eq_swap := fun {a b} => @OrientedCmp.eq_swap (List (List (List (List Principal)))) compare _ (key a) (key b)
      isLE_trans := fun {a b c} => @TransCmp.isLE_trans (List (List (List (List Principal)))) compare _ (key a)
        (key b) (key c) }
  lawfulEqCmp :=
    { compare_self := fun {a} => @ReflCmp.compare_self (List (List (List (List Principal)))) compare _ (key a)
      eq_of_compare := fun h => key_injective (LawfulEqCmp.eq_of_compare h) }

scoped instance : LawfulConj where
  implies_refl := implies_refl
  implies_trans := implies_trans
  and_implies_left := and_implies_left
  and_implies_right := and_implies_right
  implies_and := implies_and
  implies_true := implies_true

scoped instance : LawfulFormula where
  implies_clause := implies_clause
  and_formula cs ds := ⟨cs ∪ ds, rfl, fun _ h => ExtTreeSet.mem_union_iff.1 h⟩

scoped instance : LawfulDowngrade where
  implies_downgrade := implies_downgrade

theorem and_mono {a b c d : Component} (h1 : implies a c) (h2 : implies b d) :
    implies (and a b) (and c d) :=
  implies_and (implies_trans (and_implies_left a b) h1) (implies_trans (and_implies_right a b) h2)

/-- Chaining two implications that both may use `p`. -/
theorem implies_via {a b c p : Component} (h1 : implies (and a p) b) (h2 : implies (and b p) c) :
    implies (and a p) c :=
  implies_trans (implies_and h1 (and_implies_right a p)) h2

theorem canFlowTo_iff {a b : Buckle} :
    canFlowTo a b ↔ implies b.secrecy a.secrecy ∧ implies a.integrity b.integrity := by
  simp [canFlowTo]

theorem canFlowToWithPrivilege_iff {a b : Buckle} {p : Component} :
    canFlowToWithPrivilege a b p ↔
      implies (and b.secrecy p) a.secrecy ∧ implies (and a.integrity p) b.integrity := by
  simp [canFlowToWithPrivilege]

scoped instance : LawfulCrate where
  flow_refl a := canFlowTo_iff.2 ⟨implies_refl _, implies_refl _⟩
  flow_trans h1 h2 := by
    obtain ⟨hs1, hi1⟩ := canFlowTo_iff.1 h1
    obtain ⟨hs2, hi2⟩ := canFlowTo_iff.1 h2
    exact canFlowTo_iff.2 ⟨implies_trans hs2 hs1, implies_trans hi1 hi2⟩
  flow_lub_left a b := canFlowTo_iff.2 ⟨and_implies_left _ _, implies_or_left _ _⟩
  flow_lub_right a b := canFlowTo_iff.2 ⟨and_implies_right _ _, implies_or_right _ _⟩
  lub_flow h1 h2 := by
    obtain ⟨hs1, hi1⟩ := canFlowTo_iff.1 h1
    obtain ⟨hs2, hi2⟩ := canFlowTo_iff.1 h2
    exact canFlowTo_iff.2 ⟨implies_and hs1 hs2, or_implies hi1 hi2⟩
  priv_of_flow h := by
    obtain ⟨hs, hi⟩ := canFlowTo_iff.1 h
    exact canFlowToWithPrivilege_iff.2
      ⟨implies_trans (and_implies_left _ _) hs, implies_trans (and_implies_left _ _) hi⟩
  priv_trans h1 h2 := by
    obtain ⟨hs1, hi1⟩ := canFlowToWithPrivilege_iff.1 h1
    obtain ⟨hs2, hi2⟩ := canFlowToWithPrivilege_iff.1 h2
    exact canFlowToWithPrivilege_iff.2 ⟨implies_via hs2 hs1, implies_via hi1 hi2⟩
  priv_mono hqp h := by
    obtain ⟨hs, hi⟩ := canFlowToWithPrivilege_iff.1 h
    exact canFlowToWithPrivilege_iff.2 ⟨implies_trans (and_mono (implies_refl _) hqp) hs,
      implies_trans (and_mono (implies_refl _) hqp) hi⟩
  priv_downgrade l p := by
    refine canFlowToWithPrivilege_iff.2 ⟨?_, ?_⟩
    · -- downgraded secrecy together with `p` gives back the secrecy of `l`
      have h := implies_downgrade l p (downgrade l p).secrecy
      have h1 : implies (and p (downgrade l p).secrecy) l.secrecy := by
        rw [← h]; exact and_implies_right _ _
      exact implies_trans (implies_and (and_implies_right _ _) (and_implies_left _ _)) h1
    · have hi : (downgrade l p).integrity = l.integrity := by
        unfold downgrade; cases l.secrecy <;> rfl
      show implies (and l.integrity p) (downgrade l p).integrity
      rw [hi]; exact and_implies_left _ _
  flow_of_priv_true h := by
    obtain ⟨hs, hi⟩ := canFlowToWithPrivilege_iff.1 h
    exact canFlowTo_iff.2 ⟨implies_trans (implies_and (implies_refl _) (implies_true _)) hs,
      implies_trans (implies_and (implies_refl _) (implies_true _)) hi⟩

scoped instance : LawfulJoin where
  lub_priv h1 h2 := by
    obtain ⟨hs1, hi1⟩ := canFlowToWithPrivilege_iff.1 h1
    obtain ⟨hs2, hi2⟩ := canFlowToWithPrivilege_iff.1 h2
    exact canFlowToWithPrivilege_iff.2 ⟨implies_and hs1 hs2, or_and_implies hi1 hi2⟩

end Dc

end Faasten
