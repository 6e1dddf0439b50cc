import Mathlib
import Faasten.DcLabels
import Faasten.Sched.Bookkeeping

/-!
# The scheduler's view of a node

Every operation of the manager of a node sends one report to the scheduler, over one connection. A
`Mirror` is such a manager together with the scheduler's: the node goes on working while its reports
are on their way, and in between the scheduler looks for workers, removes nodes and processes the
updates of others.

The local cache never forgets a function, so a report mentions every function that an earlier report
mentioned; this makes up for an update that touches only the functions it mentions.
-/

namespace Faasten

/-! ### Reports -/

namespace ResourceManager

variable {rm rm' : ResourceManager} {f : Function}

/-- What `update_scheduler` sends. -/
def report (rm : ResourceManager) : ResourceInfo where
  stats := rm.cache.entries.map fun e => (e.1, e.2.length)
  totalMem := rm.totalMem
  freeMem := rm.freeMem

/-- How many VMs of a function are idle. -/
def idleVms (rm : ResourceManager) (f : Function) : ℕ := ((rm.cache.lookup f).getD []).length

theorem keys_report (rm : ResourceManager) : Tally.keys rm.report.stats = rm.cache.keys := by
  simp [Tally.keys, report, AList.keys, List.keys, Function.comp_def]

theorem nodup_report (rm : ResourceManager) : (Tally.keys rm.report.stats).Nodup :=
  keys_report rm ▸ AList.keys_nodup _

theorem count_report (rm : ResourceManager) (f : Function) :
    Tally.count rm.report.stats f = rm.idleVms f := by
  unfold report idleVms AList.lookup
  simp only
  generalize rm.cache.entries = es
  induction es with
  | nil => rfl
  | cons e es ih =>
    obtain ⟨g, l⟩ := e
    rw [List.map_cons, Tally.count_cons, ih]
    by_cases hg : g = f
    · subst hg
      simp
    · have hne : f ≠ (⟨g, l⟩ : Sigma fun _ : Function => List Vm).1 := Ne.symm hg
      rw [if_neg hg, List.dlookup_cons_ne _ _ hne]

/-- A call of a worker thread. -/
inductive Call
  | newVm (passes : ℕ) (f : Function)
  | getCachedVm (f : Function)
  | release (vm : Vm)
  | delete (vm : Vm)

variable [LabelCrate]

/-- The manager after a call; `none` stands for one that does not return. -/
def Call.run (rm : ResourceManager) : Call → Option ResourceManager
  | .newVm passes f => (rm.newVm passes f).map Prod.snd
  | .getCachedVm f => some (rm.getCachedVm f).2
  | .release vm => some (rm.release vm)
  | .delete vm => some (rm.delete vm)

/-- What a call may do: it keeps the keys of the cache, and sends one report at its end. -/
structure Reported (rm rm' : ResourceManager) : Prop where
  reports : rm'.reports = rm.reports ++ [rm'.report]
  keys : ∀ f, f ∈ rm.cache → f ∈ rm'.cache

omit [LabelCrate] in
theorem reported_updateScheduler (hreports : rm'.reports = rm.reports)
    (hkeys : ∀ f, f ∈ rm.cache → f ∈ rm'.cache) : Reported rm rm'.updateScheduler := by
  refine ⟨?_, hkeys⟩
  show rm'.reports ++ [rm'.report] = _
  rw [hreports]
  rfl

omit [LabelCrate] in
theorem evictLoop_keeps {mem passes freed : ℕ} (h : evictLoop mem passes freed rm = some rm') :
    rm'.reports = rm.reports ∧ ∀ f, f ∈ rm.cache → f ∈ rm'.cache := by
  induction passes generalizing freed rm with
  | zero =>
    unfold evictLoop at h
    by_cases hlt : freed < mem
    · rw [if_pos hlt] at h
      cases h
    · rw [if_neg hlt] at h
      cases h
      exact ⟨rfl, fun _ hf => hf⟩
  | succ passes ih =>
    unfold evictLoop at h
    by_cases hlt : freed < mem
    · rw [if_pos hlt] at h
      obtain ⟨hreports, hkeys⟩ := ih h
      refine ⟨hreports, fun f hf => hkeys f ?_⟩
      rw [← AList.lookup_isSome] at hf ⊢
      simpa [Cache.lookup_evict] using hf
    · rw [if_neg hlt] at h
      cases h
      exact ⟨rfl, fun _ hf => hf⟩

omit [LabelCrate] in
theorem tryAllocateMemory_keeps {passes mem : ℕ} {room : Bool}
    (h : rm.tryAllocateMemory passes mem = some (room, rm')) :
    rm'.reports = rm.reports ∧ ∀ f, f ∈ rm.cache → f ∈ rm'.cache := by
  unfold tryAllocateMemory at h
  simp only [Option.bind_eq_bind, Option.bind_eq_some_iff, Prod.exists] at h
  obtain ⟨b, rm₁, hroom, h⟩ := h
  have h₁ : rm₁.reports = rm.reports ∧ ∀ f, f ∈ rm.cache → f ∈ rm₁.cache := by
    unfold makeRoom at hroom
    split at hroom
    · obtain ⟨-, rfl⟩ := Prod.mk.inj (Option.some.inj hroom)
      exact ⟨rfl, fun _ hf => hf⟩
    · unfold dummyEvict at hroom
      split at hroom
      · obtain ⟨-, rfl⟩ := Prod.mk.inj (Option.some.inj hroom)
        exact ⟨rfl, fun _ hf => hf⟩
      · obtain ⟨rm₂, hloop, hr⟩ := Option.map_eq_some_iff.1 hroom
        obtain ⟨-, rfl⟩ := Prod.mk.inj hr
        exact evictLoop_keeps hloop
  cases b with
  | true =>
    obtain ⟨-, rfl⟩ := Prod.mk.inj (Option.some.inj h)
    exact h₁
  | false =>
    obtain ⟨-, rfl⟩ := Prod.mk.inj (Option.some.inj h)
    exact h₁

omit [LabelCrate] in
theorem mem_insert_of_mem {l : List Vm} {g : Function} (hf : f ∈ rm.cache) :
    f ∈ rm.cache.insert g l :=
  AList.mem_insert _ |>.2 (.inr hf)

/-- **Every call sends one report.** -/
theorem Call.reported {c : Call} (h : c.run rm = some rm') : Reported rm rm' := by
  cases c with
  | newVm passes f =>
    simp only [Call.run, Option.map_eq_some_iff, Prod.exists, exists_eq_right] at h
    obtain ⟨vm, h⟩ := h
    unfold ResourceManager.newVm at h
    simp only [Option.bind_eq_bind, Option.bind_eq_some_iff, Prod.exists] at h
    obtain ⟨room, rm₁, halloc, h⟩ := h
    obtain ⟨hreports, hkeys⟩ := tryAllocateMemory_keeps halloc
    cases room with
    | true =>
      obtain ⟨-, rfl⟩ := Prod.mk.inj (Option.some.inj h)
      exact reported_updateScheduler hreports hkeys
    | false =>
      obtain ⟨-, rfl⟩ := Prod.mk.inj (Option.some.inj h)
      exact reported_updateScheduler hreports hkeys
  | getCachedVm f =>
    cases h
    unfold ResourceManager.getCachedVm
    split
    · exact reported_updateScheduler rfl fun _ hf => hf
    · exact reported_updateScheduler rfl fun _ hf => mem_insert_of_mem hf
  | release vm =>
    cases h
    unfold ResourceManager.release
    split
    · exact reported_updateScheduler rfl fun _ hf => mem_insert_of_mem hf
    · exact reported_updateScheduler rfl fun _ hf => mem_insert_of_mem hf
  | delete vm =>
    cases h
    exact reported_updateScheduler rfl fun _ hf => hf

end ResourceManager

namespace Sched

open Sched.ResourceManager

/-! ### What an update does to each entry -/

/-- The list of a function after the count of a node in it was set. -/
def recorded (node : Node) (k : ℕ) (nodes : Option (Tally Node)) : Option (Tally Node) :=
  nodes.elim (if 0 < k then some [(node, k)] else none) fun v => some (v.record node k)

theorem count_recorded {nodes : Option (Tally Node)} (h : ∀ v, nodes = some v → v.Tidy)
    (node : Node) (k : ℕ) (n : Node) :
    ((recorded node k nodes).getD []).count n =
      if n = node then k else (nodes.getD []).count n := by
  rcases nodes with _ | v
  · by_cases hk : 0 < k <;> by_cases hn : n = node
    · simp [recorded, hk, hn]
    · simp [recorded, hk, hn, Ne.symm hn]
    · simp [recorded, hk, hn]
      omega
    · simp [recorded, hk, hn]
  · simp [recorded, Tally.count_record (h v rfl)]

theorem recorded_recorded {nodes : Option (Tally Node)} (h : ∀ v, nodes = some v → v.Tidy)
    (node : Node) (k : ℕ) :
    recorded node k (recorded node k nodes) = recorded node k nodes := by
  rcases nodes with _ | v
  · by_cases hk : 0 < k <;> simp [recorded, hk, Tally.record, Tally.put]
  · simp [recorded, Tally.record_record (h v rfl)]

variable {rm : ResourceManager} {ip : ℕ} {info : ResourceInfo}

theorem cached_recordStats (node : Node) (stats : Tally Function) (hnodup : stats.keys.Nodup)
    (rm : ResourceManager) (g : Function) :
    (stats.foldl (fun rm stat => rm.recordStat node stat) rm).cached g =
      if g ∈ stats.keys then recorded node (stats.count g) (rm.cached g) else rm.cached g := by
  induction stats generalizing rm with
  | nil => simp [Tally.keys]
  | cons stat stats ih =>
    rw [Tally.keys_cons, List.nodup_cons] at hnodup
    rw [List.foldl_cons, ih hnodup.2, cached_recordStat, Tally.keys_cons, Tally.count_cons]
    by_cases hg : g = stat.1
    · subst hg
      simp [hnodup.1, recorded]
    · simp [hg, Ne.symm hg]

/-- An update sets the counts of the functions that it mentions. -/
theorem cached_update (hnodup : (Tally.keys info.stats).Nodup) (rm : ResourceManager) (ip : ℕ)
    (g : Function) :
    (rm.update ip info).cached g =
      if g ∈ Tally.keys info.stats then recorded ⟨ip⟩ (Tally.count info.stats g) (rm.cached g)
      else rm.cached g := by
  unfold ResourceManager.update
  rw [cached_recordStats _ _ hnodup]
  simp

theorem count_update (h : Consistent rm) (hnodup : (Tally.keys info.stats).Nodup) (ip : ℕ)
    (g : Function) (n : Node) :
    (rm.update ip info).count g n =
      if n = ⟨ip⟩ ∧ g ∈ Tally.keys info.stats then Tally.count info.stats g else rm.count g n := by
  unfold count
  rw [cached_update hnodup]
  by_cases hg : g ∈ Tally.keys info.stats
  · simp [hg, count_recorded (h.tidy g)]
  · simp [hg]

/-- An update sets what is known about its node. -/
theorem info_update (rm : ResourceManager) (ip : ℕ) (info : ResourceInfo) (n : Node) :
    (rm.update ip info).info n =
      if n = ⟨ip⟩ then
        some { (rm.info ⟨ip⟩).getD { node := ⟨ip⟩ } with
          dirty := false, totalMem := info.totalMem, freeMem := info.freeMem }
      else rm.info n := by
  unfold ResourceManager.update
  rw [(recordStats_frame ..).1]
  by_cases hn : n = ⟨ip⟩
  · simp [hn, info_tryAddNode]
  · simp [hn, info_tryAddNode]

theorem ResourceManager.ext {rm rm' : ResourceManager} (hinfo : ∀ n, rm.info n = rm'.info n)
    (hcached : ∀ f, rm.cached f = rm'.cached f) (hidle : rm.idle = rm'.idle)
    (hwait : rm.waitList = rm'.waitList) : rm = rm' := by
  cases rm
  cases rm'
  simp only [mk.injEq]
  exact ⟨funext hinfo, funext hcached, hidle, hwait⟩

/-- Processing the same update twice is the same as once. -/
theorem update_update (h : Consistent rm) (hnodup : (Tally.keys info.stats).Nodup) (ip : ℕ) :
    (rm.update ip info).update ip info = rm.update ip info := by
  refine ResourceManager.ext (fun n => ?_) (fun g => ?_) ?_ ?_
  · simp only [info_update]
    by_cases hn : n = ⟨ip⟩ <;> simp [hn]
  · simp only [cached_update hnodup]
    by_cases hg : g ∈ Tally.keys info.stats
    · simp [hg, recorded_recorded (h.tidy g)]
    · simp [hg]
  · rw [idle_update]
  · rw [waitList_update]

/-- Updates of different nodes commute, as far as each entry is concerned. -/
theorem update_comm (h : Consistent rm) {ip' : ℕ} {info' : ResourceInfo} (hip : ip ≠ ip')
    (hnodup : (Tally.keys info.stats).Nodup) (hnodup' : (Tally.keys info'.stats).Nodup)
    (n : Node) :
    ((rm.update ip info).update ip' info').info n =
        ((rm.update ip' info').update ip info).info n ∧
      ∀ g, ((rm.update ip info).update ip' info').count g n =
        ((rm.update ip' info').update ip info).count g n := by
  have hne : (⟨ip⟩ : Node) ≠ ⟨ip'⟩ := fun hn => hip (Node.mk.inj hn)
  refine ⟨?_, fun g => ?_⟩
  · simp only [info_update]
    by_cases hn : n = ⟨ip⟩
    · simp [hn, hne]
    · by_cases hn' : n = ⟨ip'⟩ <;> simp [hn, hn', hne.symm]
  · rw [count_update (h.update ip info) hnodup', count_update h hnodup,
      count_update (h.update ip' info') hnodup, count_update h hnodup']
    by_cases hn : n = ⟨ip⟩
    · simp [hn, hne]
    · simp [hn]

/-! ### The other operations -/

/-- Nothing but an update of a node adds to its counts. -/
theorem count_run_le (h : Consistent rm) {op : Op} (hallowed : op.Allowed rm)
    (hop : ∀ info, op ≠ .update ip info) {w : Option Worker} {rm' : ResourceManager}
    (hs : op.run rm = some (w, rm')) (g : Function) : rm'.count g ⟨ip⟩ ≤ rm.count g ⟨ip⟩ := by
  have hremove : ∀ (rm : ResourceManager), Consistent rm → ∀ ip',
      (rm.remove ip').2.count g ⟨ip⟩ ≤ rm.count g ⟨ip⟩ := by
    intro rm h ip'
    unfold count ResourceManager.remove
    rcases hc : rm.cached g with _ | v
    · simp [hc]
    · simp only [hc, Option.map_some, Option.getD_some, Tally.count_discard (h.tidy g v hc)]
      split_ifs <;> omega
  cases op with
  | addIdle addr conn =>
    obtain ⟨-, rfl⟩ := Prod.mk.inj (Option.some.inj hs)
    simp [count]
  | findIdle f next =>
    obtain ⟨used, rm₁, huse, hcases⟩ := findIdle_cases hs
    obtain ⟨-, -, -, hother, -, hcount⟩ := useCached_spec (h.tidy f) huse
    have hle : rm₁.count g ⟨ip⟩ ≤ rm.count g ⟨ip⟩ := by
      by_cases hg : g = f
      · subst hg
        rw [hcount]
        split_ifs <;> omega
      · rw [count, count, hother g hg]
    rcases hcases with ⟨-, rfl⟩ | ⟨n, -, rfl⟩ | ⟨n, x, i, -, -, -, rfl⟩
    · exact hle
    · exact hle
    · exact hle
  | update ip' info =>
    obtain ⟨-, rfl⟩ := Prod.mk.inj (Option.some.inj hs)
    have hne : ip ≠ ip' := fun hip => hop info (hip ▸ rfl)
    rw [count_update h hallowed]
    simp [hne]
  | remove ip' =>
    obtain ⟨-, rfl⟩ := Prod.mk.inj (Option.some.inj hs)
    exact hremove rm h ip'
  | removeAll nodes =>
    obtain ⟨-, rfl⟩ := Prod.mk.inj (Option.some.inj hs)
    clear hs hallowed hop
    induction nodes generalizing rm with
    | nil => exact le_rfl
    | cons node nodes ih => exact (ih (h.remove node.ip)).trans (hremove rm h node.ip)

/-! ### A node and the scheduler -/

/-- The manager of a node, what it was after each of its calls, the scheduler's manager, and how
many reports of the node the scheduler has processed. -/
structure Mirror where
  node : Faasten.ResourceManager
  past : List Faasten.ResourceManager := []
  sched : ResourceManager
  processed : ℕ := 0

namespace Mirror

/-- The scheduler processes the next report. -/
def deliver (ip : ℕ) (m : Mirror) : Option Mirror :=
  m.node.reports[m.processed]?.map fun info =>
    { m with sched := m.sched.update ip info, processed := m.processed + 1 }

variable [LabelCrate]

/-- The runs of a node with this address and the scheduler. -/
inductive Run (ip : ℕ) (m₀ : Mirror) : Mirror → Prop
  | start : Run ip m₀ m₀
  | call {m : Mirror} (hrun : Run ip m₀ m) (c : Faasten.ResourceManager.Call)
      {node : Faasten.ResourceManager} (hs : c.run m.node = some node) :
      Run ip m₀ { m with node, past := m.past ++ [node] }
  | sched {m : Mirror} (hrun : Run ip m₀ m) (op : Op) (hallowed : op.Allowed m.sched)
      (hop : ∀ info, op ≠ .update ip info) {w : Option Worker} {sched : ResourceManager}
      (hs : op.run m.sched = some (w, sched)) : Run ip m₀ { m with sched }
  | deliver {m m' : Mirror} (hrun : Run ip m₀ m) (hs : m.deliver ip = some m') : Run ip m₀ m'

/-- The reports are those of the past, the past never forgets a function, and the scheduler knows no
function of the node that was not in a processed report. -/
structure Faithful (ip : ℕ) (m : Mirror) : Prop where
  consistent : Consistent m.sched
  reports : m.node.reports = m.past.map (·.report)
  grows : m.past.Pairwise fun rm rm' => ∀ f, f ∈ rm.cache → f ∈ rm'.cache
  latest : ∀ rm ∈ m.past, ∀ f, f ∈ rm.cache → f ∈ m.node.cache
  known : ∀ f, 0 < m.sched.count f ⟨ip⟩ → ∃ k rm, k < m.processed ∧ m.past[k]? = some rm ∧
    f ∈ rm.cache

variable {m m₀ m' : Mirror}

omit [LabelCrate] in
/-- The report that is delivered is one of the past. -/
theorem Faithful.deliver_eq (h : m.Faithful ip) (hs : m.deliver ip = some m') :
    ∃ rm, m.past[m.processed]? = some rm ∧
      m' = { m with sched := m.sched.update ip rm.report, processed := m.processed + 1 } := by
  obtain ⟨info, hinfo, rfl⟩ := Option.map_eq_some_iff.1 hs
  rw [h.reports, List.getElem?_map, Option.map_eq_some_iff] at hinfo
  obtain ⟨rm, hrm, rfl⟩ := hinfo
  exact ⟨rm, hrm, rfl⟩

omit [LabelCrate] in
/-- A function that the scheduler knows of the node is in every report to come. -/
theorem Faithful.mem_cache (h : m.Faithful ip) {f : Function} (hf : 0 < m.sched.count f ⟨ip⟩)
    {rm : Faasten.ResourceManager} (hrm : m.past[m.processed]? = some rm) : f ∈ rm.cache := by
  obtain ⟨k, rm₀, hk, hrm₀, hf₀⟩ := h.known f hf
  obtain ⟨hlt, rfl⟩ := List.getElem?_eq_some_iff.1 hrm
  obtain ⟨hlt₀, rfl⟩ := List.getElem?_eq_some_iff.1 hrm₀
  exact List.pairwise_iff_getElem.1 h.grows k m.processed hlt₀ hlt hk f hf₀

omit [LabelCrate] in
theorem Faithful.count_deliver (h : m.Faithful ip) {rm : Faasten.ResourceManager}
    (hrm : m.past[m.processed]? = some rm) (f : Function) :
    (m.sched.update ip rm.report).count f ⟨ip⟩ = rm.idleVms f := by
  rw [count_update h.consistent rm.nodup_report, rm.keys_report, rm.count_report]
  by_cases hf : f ∈ rm.cache.keys
  · simp [hf]
  · have hzero : m.sched.count f ⟨ip⟩ = 0 := by
      by_contra hne
      exact hf (AList.mem_keys.2 (h.mem_cache (Nat.pos_of_ne_zero hne) hrm))
    have hnone : rm.cache.lookup f = none := AList.lookup_eq_none.2 fun hmem => hf hmem
    simp [hf, hzero, Faasten.ResourceManager.idleVms, hnone]

/-- **A node and the scheduler keep the mirror faithful.** -/
theorem Run.faithful (h₀ : m₀.Faithful ip) (hrun : Run ip m₀ m) : m.Faithful ip := by
  induction hrun with
  | start => exact h₀
  | @call m _ c node hs ih =>
    obtain ⟨hreports, hkeys⟩ := c.reported hs
    refine ⟨ih.consistent, ?_, ?_, ?_, fun f hf => ?_⟩
    · simp [hreports, ih.reports]
    · refine List.pairwise_append.2 ⟨ih.grows, List.pairwise_singleton _ _, ?_⟩
      intro rm hrm rm' hrm' f hf
      rw [List.mem_singleton.1 hrm']
      exact hkeys f (ih.latest rm hrm f hf)
    · intro rm hrm f hf
      rcases List.mem_append.1 hrm with hrm | hrm
      · exact hkeys f (ih.latest rm hrm f hf)
      · exact List.mem_singleton.1 hrm ▸ hf
    · obtain ⟨k, rm, hk, hrm, hmem⟩ := ih.known f hf
      exact ⟨k, rm, hk, by rw [List.getElem?_append_left (List.getElem?_eq_some_iff.1 hrm).1, hrm],
        hmem⟩
  | sched _ op hallowed hop hs ih =>
    refine ⟨ih.consistent.run hs, ih.reports, ih.grows, ih.latest, fun f hf => ih.known f ?_⟩
    exact hf.trans_le (count_run_le ih.consistent hallowed hop hs f)
  | @deliver m m' _ hs ih =>
    obtain ⟨rm, hrm, rfl⟩ := ih.deliver_eq hs
    refine ⟨ih.consistent.update ip _, ih.reports, ih.grows, ih.latest, fun f hf => ?_⟩
    refine ⟨m.processed, rm, Nat.lt_succ_self _, hrm, ?_⟩
    rw [ih.count_deliver hrm] at hf
    by_contra hmem
    simp [Faasten.ResourceManager.idleVms, AList.lookup_eq_none.2 hmem] at hf

omit [LabelCrate] in
/-- A new manager, and a scheduler that knows nothing about the node. -/
theorem faithful_new {rm : ResourceManager} (h : Consistent rm) (hinfo : rm.info ⟨ip⟩ = none)
    (totalMem : ℕ) : Faithful ip { node := .new totalMem, sched := rm } := by
  refine ⟨h, rfl, .nil, by simp, fun f hf => ?_⟩
  -- A node with a count would have an entry in `info`.
  exfalso
  unfold count at hf
  rcases hc : rm.cached f with _ | v
  · simp [hc] at hf
  · simp only [hc, Option.getD_some] at hf
    have := h.cached_known f v hc ⟨ip⟩ ((h.tidy f v hc).mem_keys.2 hf)
    simp [hinfo] at this

/-- **The scheduler's view mirrors the node.** Right after a report was processed, the scheduler
knows of the node exactly what was true when the report was sent, and nothing has changed for other
nodes. Updates of different nodes commute, and an update can be repeated. -/
theorem mirrors {h : History} (hsched : Sched.Run h) (hnode : h.rm.info ⟨ip⟩ = none) {totalMem : ℕ}
    (hrun : Run ip { node := .new totalMem, sched := h.rm } m) :
    (∀ m', m.deliver ip = some m' → ∃ rm, m.past[m.processed]? = some rm ∧
      (∀ f, m'.sched.count f ⟨ip⟩ = rm.idleVms f ∧
        (⟨ip⟩ ∉ Tally.keys ((m'.sched.cached f).getD []) ↔ rm.idleVms f = 0)) ∧
      (∃ i, m'.sched.info ⟨ip⟩ = some i ∧ i.totalMem = rm.totalMem ∧ i.freeMem = rm.freeMem ∧
        i.dirty = false) ∧
      ∀ n, n ≠ ⟨ip⟩ → m'.sched.info n = m.sched.info n ∧ m'.sched.idle n = m.sched.idle n ∧
        ∀ f, m'.sched.count f n = m.sched.count f n) ∧
    (∀ ip₁ ip₂ info₁ info₂, ip₁ ≠ ip₂ → (Tally.keys info₁.stats).Nodup →
      (Tally.keys info₂.stats).Nodup → ∀ n,
        ((m.sched.update ip₁ info₁).update ip₂ info₂).info n =
          ((m.sched.update ip₂ info₂).update ip₁ info₁).info n ∧
        ∀ f, ((m.sched.update ip₁ info₁).update ip₂ info₂).count f n =
          ((m.sched.update ip₂ info₂).update ip₁ info₁).count f n) ∧
    ∀ ip₁ info₁, (Tally.keys info₁.stats).Nodup →
      (m.sched.update ip₁ info₁).update ip₁ info₁ = m.sched.update ip₁ info₁ := by
  have hm := hrun.faithful (faithful_new hsched.consistent hnode totalMem)
  refine ⟨fun m' hs => ?_, fun ip₁ ip₂ info₁ info₂ hip h₁ h₂ => ?_, fun ip₁ info₁ h₁ => ?_⟩
  · obtain ⟨rm, hrm, rfl⟩ := hm.deliver_eq hs
    have hcons : Consistent (m.sched.update ip rm.report) := hm.consistent.update ip _
    refine ⟨rm, hrm, fun f => ⟨hm.count_deliver hrm f, ?_⟩, ?_, fun n hn => ⟨?_, ?_, fun f => ?_⟩⟩
    · rw [← hm.count_deliver hrm f, count]
      rcases hc : (m.sched.update ip rm.report).cached f with _ | v
      · simp [Tally.keys]
      · rw [Option.getD_some, (hcons.tidy f v hc).mem_keys]
        omega
    · exact ⟨_, by rw [info_update, if_pos rfl], rfl, rfl, rfl⟩
    · simp [info_update, hn]
    · rw [idle_update]
    · simp [count_update hm.consistent rm.nodup_report, hn]
  · exact update_comm hm.consistent hip h₁ h₂
  · exact update_update hm.consistent h₁ ip₁

end Mirror

end Sched

end Faasten

namespace Faasten.Sched.Reporting

open scoped Dc

/-- The function of the example. -/
def mailer : Function := ⟨1, "mailer", "python", "kernel"⟩

/-- A node creates a VM and releases it, and the scheduler has processed the first report: the next
one brings the cached VM. -/
theorem released_vm_mirrored :
    ∃ m m' : Mirror, m.processed = 1 ∧ m.deliver 7 = some m' ∧ m'.sched.count mailer ⟨7⟩ = 1 := by
  obtain ⟨m, hrun, m', hs, hprocessed, hpast⟩ : ∃ m : Mirror,
      Mirror.Run 7 { node := .new 4, sched := {} } m ∧ ∃ m', m.deliver 7 = some m' ∧
        m.processed = 1 ∧ m.past[m.processed]?.map (·.idleVms mailer) = some 1 :=
    ⟨_, .deliver (.call (.call .start (.newVm 0 mailer) rfl) (.release (Vm.new 1 mailer)) rfl) rfl,
      _, rfl, rfl, rfl⟩
  obtain ⟨rm, hrm, hcount, -⟩ := (Mirror.mirrors Run.start rfl hrun).1 m' hs
  rw [hrm] at hpast
  exact ⟨m, m', hprocessed, hs, (hcount mailer).1.trans (Option.some.inj hpast)⟩

end Faasten.Sched.Reporting
