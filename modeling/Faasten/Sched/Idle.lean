import Mathlib
import Faasten.Sched.Bookkeeping

/-!
# Missed idle workers

`find_idle` commits to the first safe node that is listed with a cached VM of the function, and only
then looks for an idle worker there. A node reports its cache on another connection than its workers
ask for tasks on, so in a reachable state a listed node may have no idle worker.
`Run.findIdle_finds_iff` says that this is exactly when `find_idle` misses the workers of other nodes,
or counts a cached VM as used without having used it.
-/

namespace Faasten.Sched

open Sched.ResourceManager

namespace ResourceManager

variable {rm rm' : ResourceManager} {f : Function} {next : Option Node}

/-- The first safe node that is listed with a cached VM of the function. -/
def firstSafe (rm : ResourceManager) (f : Function) : Option Node :=
  (Tally.keys ((rm.cached f).getD [])).find? fun n => rm.safe n == some true

/-- `find_idle` finds an idle worker when there is one, and has changed nothing when it finds none. -/
def FindsIdle (rm : ResourceManager) (f : Function) (next : Option Node) : Prop :=
  ∀ rm', rm.findIdle f next = some (none, rm') → (∀ n, rm.idle n = none) ∧ rm' = rm

theorem useCached_eq_firstSafe {used : Option Node} (h : Consistent rm)
    (hs : rm.useCached f = some (used, rm')) :
    used = rm.firstSafe f ∧ (used = none → rm' = rm) := by
  unfold useCached at hs
  unfold firstSafe
  rcases hc : rm.cached f with _ | v
  · rw [hc] at hs
    obtain ⟨rfl, rfl⟩ := Prod.mk.inj (Option.some.inj hs)
    exact ⟨rfl, fun _ => rfl⟩
  · simp only [hc, Option.map_eq_some_iff, Prod.exists, Prod.mk.injEq] at hs
    obtain ⟨used, v', huse, rfl, rfl⟩ := hs
    obtain ⟨hfind, hsame⟩ := Tally.useFirst_eq_find huse
    refine ⟨hfind, fun hnone => ?_⟩
    have hkeep : v.filter (·.2 ≠ 0) = v := by
      apply List.filter_eq_self.2
      intro e he
      have := (h.tidy f v hc).pos e he
      simp only [ne_eq, decide_eq_true_eq]
      omega
    rw [hsame hnone, hkeep, ← hc, Function.update_eq_self]

/-- Taking a cached VM changes what is cached. -/
theorem cached_ne_of_useCached {n : Node} (h : Consistent rm)
    (hs : rm.useCached f = some (some n, rm')) : rm'.cached ≠ rm.cached := by
  intro hsame
  have hcount := (useCached_spec (h.tidy f) hs).2.2.2.2.2 n
  have hmem : n ∈ Tally.keys ((rm.cached f).getD []) :=
    List.mem_of_find?_eq_some (useCached_eq_firstSafe h hs).1.symm
  have hpos : 0 < rm.count f n := by
    unfold count
    rcases hc : rm.cached f with _ | v
    · simp [hc, Tally.keys] at hmem
    · rw [hc] at hmem
      exact (h.tidy f v hc).mem_keys.1 hmem
  rw [if_pos rfl, count, hsame] at hcount
  unfold count at hpos hcount
  omega

theorem popIdle_eq_none (h : Consistent rm) {n : Node} :
    (rm.popIdle n).1 = none ↔ rm.idle n = none := by
  unfold popIdle
  rcases hidle : rm.idle n with _ | ws
  · simp
  · simpa [List.getLast?_eq_none_iff] using h.idle_ne_nil n ws hidle

/-- Without a listed safe node, `find_idle` finds an idle worker if there is one. -/
theorem findsIdle_of_unlisted (h : Consistent rm) (hallowed : (Op.findIdle f next).Allowed rm)
    (hsafe : rm.firstSafe f = none) : rm.FindsIdle f next := by
  intro rm' hs
  obtain ⟨⟨used, rm₁⟩, huse⟩ := exists_useCached h f
  obtain ⟨hused, hsame⟩ := useCached_eq_firstSafe h huse
  obtain rfl : used = none := hused.trans hsafe
  obtain rfl : rm₁ = rm := hsame rfl
  unfold findIdle at hs
  simp only [huse, Option.bind_eq_bind, Option.bind_some] at hs
  cases next with
  | none =>
    obtain ⟨-, rfl⟩ := Prod.mk.inj (Option.some.inj hs)
    exact ⟨hallowed.2 rfl, rfl⟩
  | some n =>
    -- The key that the iteration starts with has a worker.
    have hidle : (rm₁.idle n).isSome := hallowed.1 n rfl
    rcases hpop : rm₁.popIdle n with ⟨_ | w, rm₂⟩
    · have hnone : rm₁.idle n = none := (popIdle_eq_none h).1 (by rw [hpop])
      simp [hnone] at hidle
    · simp only [hpop] at hs
      obtain ⟨i, -, hs⟩ := Option.bind_eq_some_iff.1 hs
      cases (Prod.mk.inj (Option.some.inj hs)).1

/-- With a listed safe node, all depends on that node. -/
theorem findsIdle_of_listed (h : Consistent rm) {n : Node} (hsafe : rm.firstSafe f = some n) :
    rm.FindsIdle f next ↔ (rm.idle n).isSome := by
  obtain ⟨⟨used, rm₁⟩, huse⟩ := exists_useCached h f
  obtain ⟨hused, -⟩ := useCached_eq_firstSafe h huse
  obtain rfl : used = some n := hused.trans hsafe
  have hfind : rm.findIdle f next = some (rm₁.popIdle n) := by
    unfold findIdle
    rw [huse]
    rfl
  have hidle : rm₁.idle = rm.idle := (useCached_spec (h.tidy f) huse).2.1
  have hpop := popIdle_eq_none (h.useCached huse) (n := n)
  rw [hidle] at hpop
  constructor
  · intro hfinds
    by_contra hnone
    rw [Option.not_isSome_iff_eq_none] at hnone
    have hs : rm.findIdle f next = some (none, (rm₁.popIdle n).2) := by
      rw [hfind, ← hpop.2 hnone]
    -- The cached VM has been counted as used.
    have hsame : (rm₁.popIdle n).2.cached = rm.cached :=
      congrArg ResourceManager.cached (hfinds _ hs).2
    exact cached_ne_of_useCached h huse hsame
  · intro hsome rm' hs
    rw [hfind] at hs
    have hnone : rm.idle n = none := hpop.1 (by rw [Option.some.inj hs])
    simp [hnone] at hsome

end ResourceManager

/-- **When `find_idle` misses no idle worker**, in every reachable state and for every order of
iteration: when the first safe node that is listed with a cached VM, if any, has an idle worker. -/
theorem Run.findIdle_finds_iff {h : History} (hrun : Run h) {f : Function} {next : Option Node}
    (hallowed : (Op.findIdle f next).Allowed h.rm) :
    h.rm.FindsIdle f next ↔ ∀ n, h.rm.firstSafe f = some n → (h.rm.idle n).isSome := by
  rcases hsafe : h.rm.firstSafe f with _ | n
  · simpa using findsIdle_of_unlisted hrun.consistent hallowed hsafe
  · rw [findsIdle_of_listed hrun.consistent hsafe]
    simp

namespace Dispatch

/-- A worker of node 8. -/
def other : Worker := ⟨⟨8, 1024⟩, 4⟩

/-- A worker of node 8 waits; node 7 has reported a cached VM, and no worker of it has asked for a task
yet. -/
def reported : History where
  rm := (ResourceManager.addIdle {} other.addr other.conn).update 7
    { stats := [(mailer, 1)], totalMem := 4, freeMem := 3 }
  added := [other]

theorem reported_run : Run reported :=
  .step (.step .start (.addIdle other.addr other.conn) trivial rfl)
    (.update 7 { stats := [(mailer, 1)], totalMem := 4, freeMem := 3 })
    (by simp [Op.Allowed, Tally.keys]) rfl

/-- The idle worker is not found, and the report of node 7 is forgotten. -/
theorem other_missed :
    ∃ h : History, Run h ∧ (Op.findIdle mailer (some ⟨8⟩)).Allowed h.rm ∧
      (∃ rm', h.rm.findIdle mailer (some ⟨8⟩) = some (none, rm') ∧
        h.rm.count mailer ⟨7⟩ = 1 ∧ rm'.count mailer ⟨7⟩ = 0) ∧
      h.rm.idle ⟨8⟩ = some [other] ∧ ¬ h.rm.FindsIdle mailer (some ⟨8⟩) := by
  have hidle : reported.rm.idle ⟨8⟩ = some [other] := rfl
  obtain ⟨rm', hs, hcount⟩ : ∃ rm', reported.rm.findIdle mailer (some ⟨8⟩) = some (none, rm') ∧
      rm'.count mailer ⟨7⟩ = 0 := ⟨_, rfl, rfl⟩
  refine ⟨reported, reported_run, ⟨by rintro n ⟨⟩; rfl, by simp⟩, ⟨rm', hs, rfl, hcount⟩, hidle,
    fun hfinds => ?_⟩
  have hnone := (hfinds rm' hs).1 ⟨8⟩
  rw [hidle] at hnone
  cases hnone

/-- Once a worker of node 7 waits too, `find_idle` finds it. -/
theorem worker_found :
    ∃ h : History, h.rm.idle ⟨8⟩ = some [other] ∧ h.rm.FindsIdle mailer (some ⟨8⟩) := by
  have hrun : Run { rm := reported.rm.addIdle worker.addr worker.conn, added := [worker, other] } :=
    .step reported_run (.addIdle worker.addr worker.conn) trivial rfl
  refine ⟨_, rfl, (hrun.findIdle_finds_iff ⟨by rintro n ⟨⟩; rfl, by simp⟩).2 ?_⟩
  rintro n hn
  cases hn
  rfl

end Dispatch

end Faasten.Sched
