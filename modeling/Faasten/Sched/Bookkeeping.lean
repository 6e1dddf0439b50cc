import Mathlib
import Faasten.Sched.ResourceManager

/-!
# The bookkeeping of the scheduler

A `History` is a manager with the workers that were added to it and those it handed out. Every
operation keeps the manager consistent, so that no operation panics, and a worker is handed out at
most as often as it was added. `Run.bookkeeping` puts this together for all sequences of operations.
-/

namespace Faasten.Sched

open Sched.ResourceManager

/-- An operation of the manager. -/
inductive Op
  | addIdle (addr : SocketAddr) (conn : Conn)
  | findIdle (f : Function) (next : Option Node)
  | update (ip : ℕ) (info : ResourceInfo)
  | remove (ip : ℕ)
  | removeAll (nodes : List Node)

namespace Op

/-- The orders of iteration are over the keys there are, and an update comes from a `HashMap`. -/
def Allowed (rm : ResourceManager) : Op → Prop
  | .addIdle _ _ => True
  | .findIdle _ next =>
      (∀ n ∈ next, (rm.idle n).isSome) ∧ (next = none → ∀ n, rm.idle n = none)
  | .update _ info => (Tally.keys info.stats).Nodup
  | .remove _ => True
  | .removeAll nodes => nodes.Nodup ∧ ∀ n, n ∈ nodes ↔ (rm.info n).isSome

/-- The worker that is handed out, and the manager afterwards; `none` is a panic. -/
def run (rm : ResourceManager) : Op → Option (Option Worker × ResourceManager)
  | .addIdle addr conn => some (none, rm.addIdle addr conn)
  | .findIdle f next => rm.findIdle f next
  | .update ip info => some (none, rm.update ip info)
  | .remove ip => some (none, (rm.remove ip).2)
  | .removeAll nodes => some (none, (ResourceManager.removeAll nodes rm).2)

/-- The worker that is added. -/
def added : Op → List Worker
  | .addIdle addr conn => [{ addr, conn }]
  | _ => []

end Op

/-- A manager, and the workers that have gone in and out. -/
structure History where
  rm : ResourceManager := {}
  added : List Worker := []
  handed : List Worker := []

/-- The histories of all sequences of operations. -/
inductive Run : History → Prop
  | start : Run {}
  | step {h : History} (hrun : Run h) (op : Op) (hallowed : op.Allowed h.rm) {w : Option Worker}
      {rm : ResourceManager} (hs : op.run h.rm = some (w, rm)) :
      Run { rm, added := op.added ++ h.added, handed := w.toList ++ h.handed }

/-! ### Consistency -/

variable {rm rm' : ResourceManager}

namespace Consistent

theorem empty : Consistent {} := ⟨by simp, by simp, by simp, by simp, by simp⟩

/-- Less in `cached` and in `idle`, and not less in `info`, is still consistent. -/
theorem mono (h : Consistent rm) (hinfo : ∀ n, (rm.info n).isSome → (rm'.info n).isSome)
    (hcached : ∀ f v', rm'.cached f = some v' →
      v'.Tidy ∧ ∃ v, rm.cached f = some v ∧ v'.keys ⊆ v.keys)
    (hidle : ∀ n ws', rm'.idle n = some ws' →
      ws' ≠ [] ∧ ∃ ws, rm.idle n = some ws ∧ ws' ⊆ ws) : Consistent rm' := by
  refine ⟨fun f v hv => (hcached f v hv).1, fun f v hv n hn => ?_, fun n hn => ?_,
    fun n ws hws w hw => ?_, fun n ws hws => (hidle n ws hws).1⟩
  · obtain ⟨-, v₀, hv₀, hsub⟩ := hcached f v hv
    exact hinfo n (h.cached_known f v₀ hv₀ n (hsub hn))
  · obtain ⟨ws, hws⟩ := Option.isSome_iff_exists.1 hn
    obtain ⟨-, ws₀, hws₀, -⟩ := hidle n ws hws
    exact hinfo n (h.idle_known n (by simp [hws₀]))
  · obtain ⟨-, ws₀, hws₀, hsub⟩ := hidle n ws hws
    exact h.idle_home n ws₀ hws₀ w (hsub hw)

theorem cached_self (h : Consistent rm) (f : Function) (v : Tally Node) (hv : rm.cached f = some v) :
    v.Tidy ∧ ∃ v₀, rm.cached f = some v₀ ∧ v.keys ⊆ v₀.keys :=
  ⟨h.tidy f v hv, v, hv, List.Subset.refl _⟩

theorem idle_self (h : Consistent rm) (n : Node) (ws : List Worker) (hws : rm.idle n = some ws) :
    ws ≠ [] ∧ ∃ ws₀, rm.idle n = some ws₀ ∧ ws ⊆ ws₀ :=
  ⟨h.idle_ne_nil n ws hws, ws, hws, List.Subset.refl _⟩

theorem addIdle (h : Consistent rm) (addr : SocketAddr) (conn : Conn) :
    Consistent (rm.addIdle addr conn) := by
  have hinfo : ∀ n, (rm.info n).isSome ∨ n = addr.node →
      ((rm.addIdle addr conn).info n).isSome := by
    intro n hn
    rw [info_addIdle]
    exact isSome_info_tryAddNode hn
  refine ⟨?_, ?_, fun n hn => ?_, fun n ws hws w hw => ?_, fun n ws hws => ?_⟩
  · simpa using h.tidy
  · rw [cached_addIdle]
    exact fun f v hv n hn => hinfo n (.inl (h.cached_known f v hv n hn))
  · rw [idle_addIdle] at hn
    by_cases hnode : n = addr.node
    · exact hinfo n (.inr hnode)
    · rw [if_neg hnode] at hn
      exact hinfo n (.inl (h.idle_known n hn))
  · rw [idle_addIdle] at hws
    by_cases hnode : n = addr.node
    · rw [if_pos hnode, Option.some.injEq] at hws
      subst hws
      rcases List.mem_append.1 hw with hw | hw
      · rcases hidle : rm.idle addr.node with _ | v
        · simp [hidle] at hw
        · rw [hnode]
          exact h.idle_home _ v hidle w (by simpa [hidle] using hw)
      · rw [List.mem_singleton.1 hw, hnode]
    · rw [if_neg hnode] at hws
      exact h.idle_home n ws hws w hw
  · rw [idle_addIdle] at hws
    by_cases hnode : n = addr.node
    · rw [if_pos hnode, Option.some.injEq] at hws
      rw [← hws]
      simp
    · rw [if_neg hnode] at hws
      exact h.idle_ne_nil n ws hws

theorem useCached (h : Consistent rm) {f : Function} {used : Option Node}
    (hs : rm.useCached f = some (used, rm')) : Consistent rm' := by
  obtain ⟨hinfo, hidle, -, hother, hown, -⟩ := useCached_spec (h.tidy f) hs
  refine h.mono (fun n hn => hinfo ▸ hn) (fun g v' hv' => ?_) ?_
  · by_cases hg : g = f
    · subst hg
      exact hown v' hv'
    · rw [hother g hg] at hv'
      exact h.cached_self g v' hv'
  · rw [hidle]
    exact h.idle_self

theorem popIdle (h : Consistent rm) (node : Node) : Consistent (rm.popIdle node).2 := by
  refine h.mono (fun n hn => hn) h.cached_self fun n ws' hws' => ?_
  rw [idle_popIdle, Option.filter_eq_some_iff] at hws'
  obtain ⟨hws', hne⟩ := hws'
  refine ⟨by simpa using hne, ?_⟩
  by_cases hn : n = node
  · subst hn
    rw [if_pos rfl, Option.map_eq_some_iff] at hws'
    obtain ⟨ws, hws, rfl⟩ := hws'
    exact ⟨ws, hws, List.dropLast_subset _⟩
  · rw [if_neg hn] at hws'
    exact ⟨ws', hws', List.Subset.refl _⟩

theorem recordStat (h : Consistent rm) {node : Node} (hnode : (rm.info node).isSome)
    (stat : Function × ℕ) : Consistent (rm.recordStat node stat) := by
  have hcached : ∀ f v, (rm.recordStat node stat).cached f = some v →
      v.Tidy ∧ ∀ n ∈ v.keys, n = node ∨ ∃ v₀, rm.cached f = some v₀ ∧ n ∈ v₀.keys := by
    intro f v hv
    rw [cached_recordStat] at hv
    by_cases hf : f = stat.1
    · rw [if_pos hf] at hv
      rcases hc : rm.cached f with _ | v₀
      · simp only [hc, Option.elim_none, Option.ite_none_right_eq_some, Option.some.injEq] at hv
        obtain ⟨hpos, rfl⟩ := hv
        exact ⟨⟨by simp [Tally.keys], by simpa using hpos⟩, by simp [Tally.keys]⟩
      · simp only [hc, Option.elim_some, Option.some.injEq] at hv
        subst hv
        refine ⟨(h.tidy f v₀ hc).record _ _, fun n hn => ?_⟩
        obtain ⟨e, he, rfl⟩ := List.mem_map.1 hn
        exact (Tally.mem_of_mem_record he).imp id fun hk => ⟨v₀, rfl, hk⟩
    · rw [if_neg hf] at hv
      exact ⟨h.tidy f v hv, fun n hn => .inr ⟨v, hv, hn⟩⟩
  refine ⟨fun f v hv => (hcached f v hv).1, fun f v hv n hn => ?_, ?_, ?_, ?_⟩
  · rw [info_recordStat]
    rcases (hcached f v hv).2 n hn with rfl | ⟨v₀, hv₀, hn₀⟩
    · exact hnode
    · exact h.cached_known f v₀ hv₀ n hn₀
  · simpa using h.idle_known
  · simpa using h.idle_home
  · simpa using h.idle_ne_nil

theorem recordStats (h : Consistent rm) {node : Node} (hnode : (rm.info node).isSome)
    (stats : List (Function × ℕ)) :
    Consistent (stats.foldl (fun rm stat => rm.recordStat node stat) rm) := by
  induction stats generalizing rm with
  | nil => exact h
  | cons stat stats ih => exact ih (h.recordStat hnode stat) (by simpa using hnode)

theorem update (h : Consistent rm) (ip : ℕ) (info : ResourceInfo) :
    Consistent (rm.update ip info) := by
  have hinfo : ∀ n, (rm.info n).isSome ∨ n = ⟨ip⟩ →
      (Function.update (rm.tryAddNode ⟨ip⟩).info ⟨ip⟩ (((rm.tryAddNode ⟨ip⟩).info ⟨ip⟩).map fun i =>
        { i with dirty := false, totalMem := info.totalMem, freeMem := info.freeMem })
        n).isSome := by
    intro n hn
    by_cases hnode : n = ⟨ip⟩
    · subst hnode
      simpa using isSome_info_tryAddNode hn
    · rw [Function.update_of_ne hnode]
      exact isSome_info_tryAddNode hn
  refine recordStats (h.mono (fun n hn => hinfo n (.inl hn)) ?_ ?_) (hinfo _ (.inr rfl)) _
  · rw [cached_tryAddNode]
    exact h.cached_self
  · rw [idle_tryAddNode]
    exact h.idle_self

theorem remove (h : Consistent rm) (ip : ℕ) : Consistent (rm.remove ip).2 := by
  -- The node itself is gone from all maps, and nothing else has changed.
  have hcached : ∀ f v', (rm.remove ip).2.cached f = some v' →
      ∃ v, rm.cached f = some v ∧ v' = Tally.discard ⟨ip⟩ v := by
    intro f v' hv'
    obtain ⟨v, hv, rfl⟩ := Option.map_eq_some_iff.1 hv'
    exact ⟨v, hv, rfl⟩
  have hidle : ∀ n ws, (rm.remove ip).2.idle n = some ws → n ≠ ⟨ip⟩ ∧ rm.idle n = some ws := by
    intro n ws hws
    by_cases hn : n = ⟨ip⟩
    · simp [hn, ResourceManager.remove] at hws
    · exact ⟨hn, by simpa [hn, ResourceManager.remove] using hws⟩
  have hinfo : ∀ n, n ≠ ⟨ip⟩ → (rm.remove ip).2.info n = rm.info n := fun n hn => by
    simp [ResourceManager.remove, hn]
  refine ⟨fun f v' hv' => ?_, fun f v' hv' n hn => ?_, fun n hn => ?_, fun n ws hws => ?_,
    fun n ws hws => ?_⟩
  · obtain ⟨v, hv, rfl⟩ := hcached f v' hv'
    exact (h.tidy f v hv).discard _
  · obtain ⟨v, hv, rfl⟩ := hcached f v' hv'
    obtain ⟨e, he, rfl⟩ := List.mem_map.1 hn
    obtain ⟨hmem, hne⟩ := Tally.mem_of_mem_discard (h.tidy f v hv) he
    rw [hinfo _ hne]
    exact h.cached_known f v hv _ (List.mem_map_of_mem hmem)
  · obtain ⟨ws, hws⟩ := Option.isSome_iff_exists.1 hn
    obtain ⟨hne, hws⟩ := hidle n ws hws
    rw [hinfo n hne]
    exact h.idle_known n (by simp [hws])
  · exact h.idle_home n ws (hidle n ws hws).2
  · exact h.idle_ne_nil n ws (hidle n ws hws).2

theorem removeAll (h : Consistent rm) (nodes : List Node) :
    Consistent (ResourceManager.removeAll nodes rm).2 := by
  induction nodes generalizing rm with
  | nil => exact h
  | cons node nodes ih => exact ih (h.remove node.ip)

end Consistent

/-! ### Finding an idle worker -/

/-- All that `find_idle` can do: nothing but forget a cached VM; or hand out the last worker of a
node, which may become dirty. -/
theorem findIdle_cases {f : Function} {next : Option Node} {w : Option Worker}
    (h : rm.findIdle f next = some (w, rm')) :
    ∃ used rm₁, rm.useCached f = some (used, rm₁) ∧
      ((w = none ∧ rm' = rm₁) ∨ (∃ n, w = (rm₁.popIdle n).1 ∧ rm' = (rm₁.popIdle n).2) ∨
        ∃ n x i, w = some x ∧ (rm₁.popIdle n).1 = some x ∧ rm₁.info x.addr.node = some i ∧
          rm' = { (rm₁.popIdle n).2 with
            info := Function.update rm₁.info x.addr.node (some { i with dirty := true }) }) := by
  unfold findIdle at h
  obtain ⟨⟨used, rm₁⟩, huse, h⟩ := Option.bind_eq_some_iff.1 h
  refine ⟨used, rm₁, huse, ?_⟩
  cases used with
  | some n =>
    obtain ⟨rfl, rfl⟩ := Prod.mk.inj (Option.some.inj h)
    exact .inr (.inl ⟨n, rfl, rfl⟩)
  | none =>
    cases next with
    | none =>
      obtain ⟨rfl, rfl⟩ := Prod.mk.inj (Option.some.inj h)
      exact .inl ⟨rfl, rfl⟩
    | some n =>
      rcases hpop : rm₁.popIdle n with ⟨_ | x, rm₂⟩
      · simp only [hpop] at h
        obtain ⟨rfl, rfl⟩ := Prod.mk.inj (Option.some.inj h)
        exact .inr (.inl ⟨n, by rw [hpop], by rw [hpop]⟩)
      · simp only [hpop] at h
        obtain ⟨i, hi, h⟩ := Option.bind_eq_some_iff.1 h
        obtain ⟨rfl, rfl⟩ := Prod.mk.inj (Option.some.inj h)
        have hrm₂ : rm₂ = (rm₁.popIdle n).2 := by rw [hpop]
        subst hrm₂
        exact .inr (.inr ⟨n, x, i, rfl, by rw [hpop], hi, rfl⟩)

theorem findIdle_waitList {f : Function} {next : Option Node} {w : Option Worker}
    (h : rm.findIdle f next = some (w, rm')) : rm'.waitList = rm.waitList := by
  obtain ⟨used, rm₁, huse, hcases⟩ := findIdle_cases h
  have h₁ : rm₁.waitList = rm.waitList := by
    unfold ResourceManager.useCached at huse
    split at huse
    · obtain ⟨-, rfl⟩ := Prod.mk.inj (Option.some.inj huse)
      rfl
    · obtain ⟨_, -, hr⟩ := Option.map_eq_some_iff.1 huse
      obtain ⟨-, rfl⟩ := Prod.mk.inj hr
      rfl
  rcases hcases with ⟨-, rfl⟩ | ⟨n, -, rfl⟩ | ⟨n, x, i, -, -, -, rfl⟩
  · exact h₁
  · exact h₁
  · exact h₁

theorem Consistent.findIdle (h : Consistent rm) {f : Function} {next : Option Node}
    {w : Option Worker} (hs : rm.findIdle f next = some (w, rm')) : Consistent rm' := by
  obtain ⟨used, rm₁, huse, hcases⟩ := findIdle_cases hs
  have h₁ := h.useCached huse
  rcases hcases with ⟨-, rfl⟩ | ⟨n, -, rfl⟩ | ⟨n, x, i, -, -, -, rfl⟩
  · exact h₁
  · exact h₁.popIdle n
  · have h₂ := h₁.popIdle n
    refine h₂.mono (fun m hm => ?_) h₂.cached_self h₂.idle_self
    by_cases hx : m = x.addr.node
    · simp [hx]
    · simp only [Function.update_of_ne hx]
      exact hm

/-- A worker that can be popped is at home at its node. -/
theorem Consistent.home_of_popIdle (h : Consistent rm) {node : Node} {w : Worker}
    (hw : (rm.popIdle node).1 = some w) : w.addr.node = node ∧ (rm.info w.addr.node).isSome := by
  obtain ⟨ws, hws, hlast⟩ := Option.bind_eq_some_iff.1 hw
  have hnode := h.idle_home node ws hws w (List.mem_of_getLast? hlast)
  exact ⟨hnode, hnode ▸ h.idle_known node (by simp [hws])⟩

/-- `find_idle` does not panic. -/
theorem Consistent.exists_findIdle (h : Consistent rm) (f : Function) (next : Option Node) :
    ∃ r, rm.findIdle f next = some r := by
  obtain ⟨⟨used, rm₁⟩, huse⟩ := exists_useCached h f
  have h₁ := h.useCached huse
  unfold ResourceManager.findIdle
  rw [huse]
  cases used with
  | some n => exact ⟨_, rfl⟩
  | none =>
    cases next with
    | none => exact ⟨_, rfl⟩
    | some n =>
      rcases hpop : rm₁.popIdle n with ⟨_ | x, rm₂⟩
      · exact ⟨_, by simp only [Option.bind_eq_bind, Option.bind_some, hpop]; rfl⟩
      · have hw : (rm₁.popIdle n).1 = some x := by rw [hpop]
        have hx := (h₁.home_of_popIdle hw).2
        have hrm₂ : rm₂.info = rm₁.info := by
          rw [show rm₂ = (rm₁.popIdle n).2 by rw [hpop]]
          rfl
        obtain ⟨i, hi⟩ := Option.isSome_iff_exists.1 hx
        exact ⟨_, by
          simp only [Option.bind_eq_bind, Option.bind_some, hpop, hrm₂, hi]
          rfl⟩

/-! ### Workers are handed out once -/

/-- How often a worker waits at its node. -/
def waiting (rm : ResourceManager) (w : Worker) : ℕ := ((rm.idle w.addr.node).getD []).count w

theorem waiting_addIdle (rm : ResourceManager) (addr : SocketAddr) (conn : Conn) (w : Worker) :
    waiting (rm.addIdle addr conn) w = waiting rm w + [(⟨addr, conn⟩ : Worker)].count w := by
  unfold waiting
  rw [idle_addIdle]
  by_cases hn : w.addr.node = addr.node
  · simp [hn, List.count_append]
  · have hne : (⟨addr, conn⟩ : Worker) ≠ w := fun h => hn (by rw [← h])
    simp [hn, hne]

theorem waiting_popIdle (h : Consistent rm) (node : Node) (w : Worker) :
    waiting (rm.popIdle node).2 w + ((rm.popIdle node).1.toList).count w = waiting rm w := by
  have hfilter : ∀ o : Option (List Worker),
      (o.filter fun v => !v.isEmpty).getD [] = o.getD [] := by
    intro o
    rcases o with _ | ⟨_ | _⟩ <;> rfl
  unfold waiting
  rw [idle_popIdle, hfilter]
  by_cases hn : w.addr.node = node
  · rw [if_pos hn, hn]
    rcases hws : rm.idle node with _ | ws
    · simp [ResourceManager.popIdle, hws]
    · rcases hlast : ws.getLast? with _ | x
      · simp [ResourceManager.popIdle, hws, List.getLast?_eq_none_iff.1 hlast]
      · have hsplit : ws = ws.dropLast ++ [x] := by rw [List.dropLast_append_getLast? x hlast]
        simp only [ResourceManager.popIdle, hws, Option.bind_some, hlast, Option.map_some,
          Option.getD_some, Option.toList_some]
        conv_rhs => rw [hsplit, List.count_append]
  · have hout : ((rm.popIdle node).1.toList).count w = 0 := by
      rw [List.count_eq_zero]
      intro hw
      exact hn (h.home_of_popIdle (Option.mem_toList.1 hw)).1
    rw [if_neg hn, hout, Nat.add_zero]

theorem waiting_findIdle (h : Consistent rm) {f : Function} {next : Option Node}
    {x : Option Worker} (hs : rm.findIdle f next = some (x, rm')) (w : Worker) :
    waiting rm' w + x.toList.count w = waiting rm w := by
  obtain ⟨used, rm₁, huse, hcases⟩ := findIdle_cases hs
  have h₁ := h.useCached huse
  have hidle : waiting rm₁ w = waiting rm w := by
    rw [waiting, waiting, (useCached_spec (h.tidy f) huse).2.1]
  rw [← hidle]
  rcases hcases with ⟨rfl, rfl⟩ | ⟨n, rfl, rfl⟩ | ⟨n, x, i, rfl, hx, -, rfl⟩
  · simp
  · exact waiting_popIdle h₁ n w
  · have := waiting_popIdle h₁ n w
    rwa [hx] at this

theorem waiting_update (rm : ResourceManager) (ip : ℕ) (info : ResourceInfo) (w : Worker) :
    waiting (rm.update ip info) w = waiting rm w := by
  rw [waiting, waiting, idle_update]

/-- Removing a node terminates the workers that wait there. -/
theorem waiting_remove (h : Consistent rm) (ip : ℕ) (w : Worker) :
    waiting (rm.remove ip).2 w + (rm.remove ip).1.count w = waiting rm w := by
  unfold waiting ResourceManager.remove
  by_cases hn : w.addr.node = ⟨ip⟩
  · simp [hn]
  · have hout : ((rm.idle ⟨ip⟩).getD []).count w = 0 := by
      rw [List.count_eq_zero]
      intro hw
      rcases hidle : rm.idle ⟨ip⟩ with _ | ws
      · simp [hidle] at hw
      · exact hn (h.idle_home _ ws hidle w (by simpa [hidle] using hw))
    simp [hn, hout]

theorem waiting_removeAll (h : Consistent rm) (nodes : List Node) (w : Worker) :
    waiting (ResourceManager.removeAll nodes rm).2 w ≤ waiting rm w := by
  induction nodes generalizing rm with
  | nil => exact le_rfl
  | cons node nodes ih =>
    have := waiting_remove h node.ip w
    exact (ih (h.remove node.ip)).trans (by omega)

/-! ### Whole runs -/

theorem Consistent.run (h : Consistent rm) {op : Op} {w : Option Worker}
    (hs : op.run rm = some (w, rm')) : Consistent rm' := by
  cases op with
  | addIdle addr conn =>
    obtain ⟨rfl, rfl⟩ := Prod.mk.inj (Option.some.inj hs)
    exact h.addIdle addr conn
  | findIdle f next => exact h.findIdle hs
  | update ip info =>
    obtain ⟨rfl, rfl⟩ := Prod.mk.inj (Option.some.inj hs)
    exact h.update ip info
  | remove ip =>
    obtain ⟨rfl, rfl⟩ := Prod.mk.inj (Option.some.inj hs)
    exact h.remove ip
  | removeAll nodes =>
    obtain ⟨rfl, rfl⟩ := Prod.mk.inj (Option.some.inj hs)
    exact h.removeAll nodes

/-- A worker that is handed out no longer waits, and only an added one starts to wait. -/
theorem waiting_run (h : Consistent rm) {op : Op} {x : Option Worker}
    (hs : op.run rm = some (x, rm')) (w : Worker) :
    waiting rm' w + x.toList.count w ≤ waiting rm w + op.added.count w := by
  cases op with
  | addIdle addr conn =>
    obtain ⟨rfl, rfl⟩ := Prod.mk.inj (Option.some.inj hs)
    simp [Op.added, waiting_addIdle]
  | findIdle f next =>
    have := waiting_findIdle h hs w
    omega
  | update ip info =>
    obtain ⟨rfl, rfl⟩ := Prod.mk.inj (Option.some.inj hs)
    simp [Op.added, waiting_update]
  | remove ip =>
    obtain ⟨rfl, rfl⟩ := Prod.mk.inj (Option.some.inj hs)
    have := waiting_remove h ip w
    simp only [Option.toList_none, List.count_nil]
    omega
  | removeAll nodes =>
    obtain ⟨rfl, rfl⟩ := Prod.mk.inj (Option.some.inj hs)
    have := waiting_removeAll h nodes w
    simp only [Option.toList_none, List.count_nil]
    omega

/-- An operation that does not panic. -/
theorem Consistent.exists_run (h : Consistent rm) (op : Op) : ∃ r, op.run rm = some r := by
  cases op with
  | findIdle f next => exact h.exists_findIdle f next
  | _ => exact ⟨_, rfl⟩

namespace Run

variable {h : History}

theorem consistent (hrun : Run h) : Consistent h.rm := by
  induction hrun with
  | start => exact .empty
  | step _ op _ hs ih => exact ih.run hs

theorem handed_le (hrun : Run h) (w : Worker) :
    waiting h.rm w + h.handed.count w ≤ h.added.count w := by
  induction hrun with
  | start => simp [waiting]
  | step hrun op _ hs ih =>
    have := waiting_run hrun.consistent hs w
    simp only [List.count_append]
    omega

/-- **The bookkeeping of the scheduler.** In every reachable state the maps are consistent, no
operation panics, no worker was handed out more often than it was added, and removing a node removes
it from all maps and nothing else. -/
theorem bookkeeping (hrun : Run h) :
    Consistent h.rm ∧ (∀ op : Op, op.Allowed h.rm → (op.run h.rm).isSome) ∧
      (∀ w, h.handed.count w ≤ h.added.count w) ∧
      ∀ ip, (h.rm.remove ip).2.info ⟨ip⟩ = none ∧ (h.rm.remove ip).2.idle ⟨ip⟩ = none ∧
        (∀ f v, (h.rm.remove ip).2.cached f = some v → ⟨ip⟩ ∉ v.keys) ∧
        (∀ n, n ≠ ⟨ip⟩ → (h.rm.remove ip).2.info n = h.rm.info n ∧
          (h.rm.remove ip).2.idle n = h.rm.idle n) ∧
        ∀ f, ((h.rm.remove ip).2.cached f = none ↔ h.rm.cached f = none) ∧
          ∀ v v', h.rm.cached f = some v → (h.rm.remove ip).2.cached f = some v' →
            v'.Perm (v.filter (·.1 ≠ ⟨ip⟩)) := by
  have hcons := hrun.consistent
  refine ⟨hcons, fun op _ => ?_, fun w => ?_, fun ip => ⟨by simp [ResourceManager.remove],
    by simp [ResourceManager.remove], fun f v hv => ?_, fun n hn => ?_, fun f => ⟨?_, ?_⟩⟩⟩
  · obtain ⟨r, hr⟩ := hcons.exists_run op
    simp [hr]
  · exact (Nat.le_add_left _ _).trans (hrun.handed_le w)
  · intro hmem
    obtain ⟨v₀, hv₀, rfl⟩ := Option.map_eq_some_iff.1 hv
    obtain ⟨e, he, hip⟩ := List.mem_map.1 hmem
    exact (Tally.mem_of_mem_discard (hcons.tidy f v₀ hv₀) he).2 hip
  · simp [ResourceManager.remove, hn]
  · simp [ResourceManager.remove]
  · intro v v' hv hv'
    obtain ⟨v₀, hv₀, rfl⟩ := Option.map_eq_some_iff.1 hv'
    obtain rfl := Option.some.inj (hv.symm.trans hv₀)
    exact Tally.discard_perm (hcons.tidy f v hv) _

end Run

namespace Dispatch

/-- A function with a cached VM. -/
def mailer : Function := ⟨1, "mailer", "python", "kernel"⟩

/-- A worker of node 7. -/
def worker : Worker := ⟨⟨7, 1024⟩, 3⟩

/-- A worker waits, its node reports a cached VM, and the worker is found. -/
theorem worker_handed_once :
    ∃ h : History, h.handed = [worker] ∧ Consistent h.rm ∧
      ∀ w, h.handed.count w ≤ h.added.count w := by
  obtain ⟨h, hrun, hhanded⟩ : ∃ h, Run h ∧ h.handed = [worker] :=
    ⟨_, .step (.step (.step .start (.addIdle worker.addr worker.conn) trivial rfl)
      (.update 7 { stats := [(mailer, 1)], totalMem := 4, freeMem := 3 }) (by simp [Op.Allowed,
        Tally.keys]) rfl)
      (.findIdle mailer (some ⟨7⟩)) ⟨by rintro n ⟨⟩; rfl, by simp⟩ rfl, rfl⟩
  obtain ⟨hcons, -, hhand, -⟩ := hrun.bookkeeping
  exact ⟨h, hhanded, hcons, hhand⟩

end Dispatch

end Faasten.Sched
