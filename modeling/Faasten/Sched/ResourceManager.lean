import Mathlib
import Faasten.Tally
import Faasten.Worker.ResourceManager

/-!
# The global resource manager

`ResourceManager` of `sched/resource_manager.rs`: what the scheduler knows about the nodes, behind
one lock. For each node there is its `NodeInfo`, for each function the nodes that have VMs of it in
their cache, with how many, and for each node the workers that wait for a task.

* A `HashMap` is a function to `Option`. Where the source iterates over one in an order that matters
  (`find_idle` without a cached VM, `remove_all`), the order is an argument.
* A connection is a number; clones of a stream are the same connection.
* `find_idle` returns `none` where the source would panic: an `unwrap` of a missing node, or a count
  that goes below zero.
* `remove` also returns the workers that are sent `Terminate`, in this order.
-/

namespace Faasten.Sched

/-- `SocketAddr`; the address itself is a number. -/
structure SocketAddr where
  ip : ℕ
  port : ℕ
  deriving DecidableEq

/-- `Node` -/
structure Node where
  ip : ℕ
  deriving DecidableEq

/-- A TCP connection of the scheduler. -/
abbrev Conn := ℕ

/-- The `Uuid` of a task. -/
abbrev Uuid := ℕ

/-- `NodeInfo` -/
structure NodeInfo where
  node : Node
  totalMem : ℕ := 0
  freeMem : ℕ := 0
  dirty : Bool := false
  deriving DecidableEq

/-- `Worker` -/
structure Worker where
  addr : SocketAddr
  conn : Conn
  deriving DecidableEq

/-- `Node(addr.ip())` -/
def SocketAddr.node (addr : SocketAddr) : Node := ⟨addr.ip⟩

/-- `ResourceManager` -/
structure ResourceManager where
  info : Node → Option NodeInfo := fun _ => none
  cached : Function → Option (Tally Node) := fun _ => none
  idle : Node → Option (List Worker) := fun _ => none
  waitList : Uuid → Option Conn := fun _ => none

namespace ResourceManager

variable (rm : ResourceManager)

/-- `try_add_node`, without the returned flag. -/
def tryAddNode (node : Node) : ResourceManager :=
  match rm.info node with
  | some _ => rm
  | none => { rm with info := Function.update rm.info node (some { node }) }

/-- `add_idle` -/
def addIdle (addr : SocketAddr) (conn : Conn) : ResourceManager :=
  let rm := rm.tryAddNode addr.node
  let worker : Worker := { addr, conn }
  match rm.idle addr.node with
  | some v => { rm with idle := Function.update rm.idle addr.node (some (v ++ [worker])) }
  | none => { rm with idle := Function.update rm.idle addr.node (some [worker]) }

/-- Whether what is known about a node can be relied on, if there is anything. -/
def safe (node : Node) : Option Bool := (rm.info node).map fun i => !i.dirty

/-- The first half of `find_idle`: a node with a VM of the function in its cache, which is counted as
used. -/
def useCached (f : Function) : Option (Option Node × ResourceManager) :=
  match rm.cached f with
  | none => some (none, rm)
  | some v =>
      (Tally.useFirst rm.safe v).map fun (node, v) =>
        (node, { rm with cached := Function.update rm.cached f (some (v.filter (·.2 ≠ 0))) })

/-- Pop an idle worker of a node, and forget the lists that are empty. -/
def popIdle (node : Node) : Option Worker × ResourceManager :=
  ((rm.idle node).bind List.getLast?,
    { rm with
      idle := fun n =>
        (Function.update rm.idle node ((rm.idle node).map List.dropLast) n).filter
          fun v => !v.isEmpty })

/-- `find_idle`; `next` is the first key in the order of iteration over `idle`. -/
def findIdle (f : Function) (next : Option Node) : Option (Option Worker × ResourceManager) := do
  let (node, rm) ← rm.useCached f
  match node with
  | some n => return rm.popIdle n
  | none =>
      match next with
      | none => return (none, rm)
      | some n =>
          match rm.popIdle n with
          | (none, rm) => return (none, rm)
          | (some w, rm) =>
              let i ← rm.info w.addr.node
              return (some w, { rm with
                info := Function.update rm.info w.addr.node (some { i with dirty := true }) })

/-- One round of the loop of `update`. -/
def recordStat (node : Node) (stat : Function × ℕ) : ResourceManager :=
  match rm.cached stat.1 with
  | some nodes =>
      { rm with cached := Function.update rm.cached stat.1 (some (nodes.record node stat.2)) }
  | none =>
      if 0 < stat.2 then
        { rm with cached := Function.update rm.cached stat.1 (some [(node, stat.2)]) }
      else rm

/-- `update` -/
def update (ip : ℕ) (info : ResourceInfo) : ResourceManager :=
  let node : Node := ⟨ip⟩
  let rm := rm.tryAddNode node
  let rm := { rm with
    info := Function.update rm.info node ((rm.info node).map fun i =>
      { i with dirty := false, totalMem := info.totalMem, freeMem := info.freeMem }) }
  info.stats.foldl (fun rm stat => rm.recordStat node stat) rm

/-- `remove` -/
def remove (ip : ℕ) : List Worker × ResourceManager :=
  let node : Node := ⟨ip⟩
  (((rm.idle node).getD []).reverse,
    { rm with
      cached := fun f => (rm.cached f).map (Tally.discard node)
      info := Function.update rm.info node none
      idle := Function.update rm.idle node none })

/-- `remove_all`, with the keys of `info` in the order of iteration. -/
def removeAll : List Node → ResourceManager → List Worker × ResourceManager
  | [], rm => ([], rm)
  | node :: nodes, rm =>
      let (workers, rm) := rm.remove node.ip
      let (workers', rm) := removeAll nodes rm
      (workers ++ workers', rm)

/-- How many VMs of a function a node has in its cache, as far as the scheduler knows. -/
def count (f : Function) (node : Node) : ℕ := ((rm.cached f).getD []).count node

end ResourceManager

/-! ### The invariant -/

/-- What holds between the maps of the manager. -/
structure Consistent (rm : ResourceManager) : Prop where
  tidy : ∀ f v, rm.cached f = some v → v.Tidy
  cached_known : ∀ f v, rm.cached f = some v → ∀ node ∈ v.keys, (rm.info node).isSome
  idle_known : ∀ node, (rm.idle node).isSome → (rm.info node).isSome
  idle_home : ∀ node ws, rm.idle node = some ws → ∀ w ∈ ws, w.addr.node = node
  idle_ne_nil : ∀ node ws, rm.idle node = some ws → ws ≠ []

/-! ### What the operations do to each entry -/

namespace ResourceManager

variable {rm rm' : ResourceManager} {f g : Function} {node n : Node}

theorem info_tryAddNode (rm : ResourceManager) (node n : Node) :
    (rm.tryAddNode node).info n =
      if n = node then some ((rm.info node).getD { node }) else rm.info n := by
  unfold tryAddNode
  rcases hinfo : rm.info node with _ | i
  · by_cases hn : n = node <;> simp [hn]
  · by_cases hn : n = node
    · simp [hn, hinfo]
    · simp [hn]

@[simp] theorem cached_tryAddNode (rm : ResourceManager) (node : Node) :
    (rm.tryAddNode node).cached = rm.cached := by
  unfold tryAddNode
  cases rm.info node <;> rfl

@[simp] theorem idle_tryAddNode (rm : ResourceManager) (node : Node) :
    (rm.tryAddNode node).idle = rm.idle := by
  unfold tryAddNode
  cases rm.info node <;> rfl

theorem isSome_info_tryAddNode (h : (rm.info n).isSome ∨ n = node) :
    ((rm.tryAddNode node).info n).isSome := by
  rw [info_tryAddNode]
  by_cases hn : n = node
  · simp [hn]
  · simpa [hn] using h

theorem idle_addIdle (rm : ResourceManager) (addr : SocketAddr) (conn : Conn) (n : Node) :
    (rm.addIdle addr conn).idle n =
      if n = addr.node then some ((rm.idle addr.node).getD [] ++ [⟨addr, conn⟩])
      else rm.idle n := by
  unfold addIdle
  rcases hidle : rm.idle addr.node with _ | v <;> by_cases hn : n = addr.node <;> simp [hidle, hn]

theorem info_addIdle (rm : ResourceManager) (addr : SocketAddr) (conn : Conn) :
    (rm.addIdle addr conn).info = (rm.tryAddNode addr.node).info := by
  unfold addIdle
  dsimp only
  split <;> rfl

@[simp] theorem cached_addIdle (rm : ResourceManager) (addr : SocketAddr) (conn : Conn) :
    (rm.addIdle addr conn).cached = rm.cached := by
  unfold addIdle
  dsimp only
  split <;> simp

@[simp] theorem waitList_addIdle (rm : ResourceManager) (addr : SocketAddr) (conn : Conn) :
    (rm.addIdle addr conn).waitList = rm.waitList := by
  unfold addIdle tryAddNode
  dsimp only
  cases rm.info addr.node <;> dsimp only <;> split <;> rfl

/-- `use_cached` only touches the list of the function. -/
theorem useCached_spec {used : Option Node} (htidy : ∀ v, rm.cached f = some v → v.Tidy)
    (h : rm.useCached f = some (used, rm')) :
    rm'.info = rm.info ∧ rm'.idle = rm.idle ∧ (∀ n ∈ used, rm.safe n = some true) ∧
      (∀ g, g ≠ f → rm'.cached g = rm.cached g) ∧
      (∀ v', rm'.cached f = some v' → v'.Tidy ∧ ∃ v, rm.cached f = some v ∧ v'.keys ⊆ v.keys) ∧
      ∀ n, rm'.count f n = if used = some n then rm.count f n - 1 else rm.count f n := by
  unfold useCached at h
  rcases hc : rm.cached f with _ | v
  · rw [hc] at h
    obtain ⟨rfl, rfl⟩ := Prod.mk.inj (Option.some.inj h)
    exact ⟨rfl, rfl, by simp, by simp, by simp [hc], by simp⟩
  · simp only [hc, Option.map_eq_some_iff, Prod.exists, Prod.mk.injEq] at h
    obtain ⟨used, v', huse, rfl, rfl⟩ := h
    have hv := htidy v hc
    obtain ⟨hkeys, hused, hcount⟩ := Tally.useFirst_spec hv.nodup huse
    have hnodup : v'.keys.Nodup := hkeys ▸ hv.nodup
    refine ⟨rfl, rfl, fun n hn => (hused n hn).2, fun g hg => by simp [hg], ?_, ?_⟩
    · intro w hw
      simp only [Function.update_self, Option.some.injEq] at hw
      subst hw
      have hsub := Tally.keys_filter_sublist (t := v') (·.2 ≠ 0)
      refine ⟨⟨hsub.nodup hnodup, fun e he => ?_⟩, v, rfl, hkeys ▸ hsub.subset⟩
      have := List.of_mem_filter he
      simp only [ne_eq, decide_eq_true_eq] at this
      omega
    · intro n
      simp only [count, Function.update_self, Option.getD_some, hc]
      rw [Tally.count_filter hnodup, hcount]
      simp only [ne_eq, decide_eq_true_eq]
      split_ifs <;> omega

theorem exists_useCached (h : Consistent rm) (f : Function) : ∃ r, rm.useCached f = some r := by
  unfold useCached
  rcases hc : rm.cached f with _ | v
  · exact ⟨_, rfl⟩
  · obtain ⟨r, hr⟩ := Tally.exists_useFirst rm.safe (h.tidy f v hc) fun n hn => by
      simpa [safe] using h.cached_known f v hc n hn
    simp [hr]

theorem idle_popIdle (rm : ResourceManager) (node n : Node) :
    (rm.popIdle node).2.idle n =
      ((if n = node then (rm.idle node).map List.dropLast else rm.idle n).filter
        fun v => !v.isEmpty) := by
  simp [popIdle, Function.update_apply]

theorem cached_recordStat (rm : ResourceManager) (node : Node) (stat : Function × ℕ)
    (g : Function) :
    (rm.recordStat node stat).cached g =
      if g = stat.1 then
        (rm.cached g).elim (if 0 < stat.2 then some [(node, stat.2)] else none)
          fun v => some (v.record node stat.2)
      else rm.cached g := by
  unfold recordStat
  rcases hc : rm.cached stat.1 with _ | v <;> by_cases hg : g = stat.1
  · subst hg
    by_cases hk : 0 < stat.2 <;> simp [hk, hc]
  · by_cases hk : 0 < stat.2 <;> simp [hk, hg]
  · subst hg
    simp [hc]
  · simp [hg]

@[simp] theorem info_recordStat (rm : ResourceManager) (node : Node) (stat : Function × ℕ) :
    (rm.recordStat node stat).info = rm.info := by
  unfold recordStat
  split
  · rfl
  · split <;> rfl

@[simp] theorem idle_recordStat (rm : ResourceManager) (node : Node) (stat : Function × ℕ) :
    (rm.recordStat node stat).idle = rm.idle := by
  unfold recordStat
  split
  · rfl
  · split <;> rfl

/-- The loop of `update` only touches `cached`. -/
theorem recordStats_frame (node : Node) (stats : Tally Function) (rm : ResourceManager) :
    (stats.foldl (fun rm stat => rm.recordStat node stat) rm).info = rm.info ∧
      (stats.foldl (fun rm stat => rm.recordStat node stat) rm).idle = rm.idle ∧
      (stats.foldl (fun rm stat => rm.recordStat node stat) rm).waitList = rm.waitList := by
  induction stats generalizing rm with
  | nil => exact ⟨rfl, rfl, rfl⟩
  | cons stat stats ih =>
    obtain ⟨h₁, h₂, h₃⟩ := ih (rm.recordStat node stat)
    refine ⟨h₁.trans (info_recordStat ..), h₂.trans (idle_recordStat ..), h₃.trans ?_⟩
    unfold recordStat
    split
    · rfl
    · split <;> rfl

theorem idle_update (rm : ResourceManager) (ip : ℕ) (info : ResourceInfo) :
    (rm.update ip info).idle = rm.idle := by
  unfold update
  rw [(recordStats_frame ..).2.1]
  simp

theorem waitList_update (rm : ResourceManager) (ip : ℕ) (info : ResourceInfo) :
    (rm.update ip info).waitList = rm.waitList := by
  unfold update
  rw [(recordStats_frame ..).2.2]
  unfold tryAddNode
  cases rm.info ⟨ip⟩ <;> rfl

end ResourceManager

end Faasten.Sched
