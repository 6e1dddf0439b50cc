import Mathlib

/-!
# Label systems with privileges

Labels are preordered by `Flows`, with `lub` as a join; a privilege relaxes the order
(`FlowsUnder`), the more so the stronger it is; `downgrade` lowers a label by a privilege, and by
no more than that privilege allows.

A *floating label* starts somewhere and then moves: it is raised as data is read, and lowered by
downgrading. `Drift p` is one such move where every downgrade is one that the privilege `p`
covers. `flowsUnder_of_drift` is the soundness of floating labels: whatever the history, the first
label flows to the last one under `p`.
-/

namespace Flow

/-- Labels `L` and privileges `P` with the laws that floating labels rest on. -/
class LabelSystem (L P : Type) where
  Flows : L → L → Prop
  FlowsUnder : P → L → L → Prop
  Implies : P → P → Prop
  lub : L → L → L
  downgrade : L → P → L
  flows_refl : ∀ a, Flows a a
  flows_trans : ∀ {a b c}, Flows a b → Flows b c → Flows a c
  flows_lub_left : ∀ a b, Flows a (lub a b)
  flows_lub_right : ∀ a b, Flows b (lub a b)
  lub_flows : ∀ {a b c}, Flows a c → Flows b c → Flows (lub a b) c
  under_of_flows : ∀ {p a b}, Flows a b → FlowsUnder p a b
  under_trans : ∀ {p a b c}, FlowsUnder p a b → FlowsUnder p b c → FlowsUnder p a c
  under_mono : ∀ {p q a b}, Implies q p → FlowsUnder p a b → FlowsUnder q a b
  under_downgrade : ∀ p a, FlowsUnder p a (downgrade a p)

variable {L P : Type} [LabelSystem L P]

open LabelSystem

/-- Whatever `q` allows, `p` allows. -/
def Covers (L : Type) {P : Type} [LabelSystem L P] (p q : P) : Prop :=
  ∀ a b : L, FlowsUnder q a b → FlowsUnder p a b

theorem Covers.refl (p : P) : Covers L p p := fun _ _ h => h

theorem Covers.of_implies {p q : P} (h : Implies L p q) : Covers L p q := fun _ _ => under_mono h

/-- One move of a floating label, where `p` covers every privilege used to lower it. -/
inductive Drift (p : P) : L → L → Prop
  | raise {a b : L} (h : Flows P a b) : Drift p a b
  | lower (a : L) {q : P} (h : Covers L p q) : Drift p a (downgrade a q)

theorem flowsUnder_of_step {p : P} {a b : L} (h : Drift p a b) : FlowsUnder p a b := by
  cases h with
  | raise h => exact under_of_flows h
  | lower h => exact h _ _ (under_downgrade _ a)

/-- **Floating labels are sound**: a label flows, under `p`, to every label it drifts to. -/
theorem flowsUnder_of_drift {p : P} {a b : L} (h : Relation.ReflTransGen (Drift p) a b) :
    FlowsUnder p a b := by
  induction h with
  | refl => exact under_of_flows (flows_refl a)
  | tail _ hs ih => exact under_trans ih (flowsUnder_of_step hs)

/-- A label above a lower bound stays above it, under `p`, as it drifts. -/
theorem under_of_flows_of_drift {p : P} {o a b : L} (ho : FlowsUnder p o a)
    (h : Relation.ReflTransGen (Drift p) a b) : FlowsUnder p o b :=
  under_trans ho (flowsUnder_of_drift h)

/-- A label that cannot flow to `l` cannot do so after being raised. -/
theorem not_flows_of_raise {a b l : L} (h : Flows P a b) (ha : ¬ Flows P a l) : ¬ Flows P b l :=
  fun hb => ha (flows_trans h hb)

end Flow
