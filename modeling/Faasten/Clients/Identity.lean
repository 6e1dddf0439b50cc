import Mathlib
import Faasten.Clients.Runs

/-!
# The identity of objects

A creation draws random uids until an `add` of the empty value succeeds, and then writes the object
in a second step; every later write puts a whole object back under the uid. `identity_stable` says
what this amounts to when any number of clients make any calls of the file system at once: uids are
given out once, and what a creation has returned keeps its kind and its label.
-/

namespace Faasten

open Std Effect

namespace FileSystem

variable {ι : Type} [DecidableEq ι] [LabelCrate]

/-- The objects of a run that has come to `p` and later comes to `p'`, where the store held `s₀` at
first. -/
structure StableIdentity (calls : ι → FsCall) (s₀ : Store)
    (p p' : Pool monitor Raised FsResult ι Thread (Shared ι)) : Prop where
  /-- no uid is reserved twice -/
  distinct : (p.shared.log.filterMap StoreAccess.reserves).Nodup
  /-- only uids that are not in use are reserved -/
  unused : ∀ u ∈ p.shared.log.filterMap StoreAccess.reserves, s₀ u = none ∧ u ≠ FS.rootRef
  /-- a creation returns a uid that it has reserved itself -/
  own : ∀ i k l e, (calls i).creates = some (k, l) → p.prog i = .pure (.entry e) →
    ∃ a ∈ p.shared.log, a.client = i ∧ a.reserves = some e.uid
  /-- no two creations return the same uid -/
  returned : ∀ i j k l k' l' e e', (calls i).creates = some (k, l) → p.prog i = .pure (.entry e) →
    (calls j).creates = some (k', l') → p.prog j = .pure (.entry e') → i ≠ j → e.uid ≠ e'.uid
  /-- an object is written where its creator has reserved a place for it, or in place of one of the
  same kind and label -/
  writes : ∀ i u v k, p.prog i = .op (Op.put u v) k → ∃ o, v = .object o ∧
    ((p.shared.owner u = some i ∧ p.shared.store u = some .reserved) ∨
      ∃ old, p.shared.store u = some (.object old) ∧ o.kind = old.kind ∧ o.label? = old.label?)
  /-- what a creation has returned keeps the kind and the label it was created with -/
  created : ∀ i k l e, (calls i).creates = some (k, l) → p.prog i = .pure (.entry e) → e.kind = k ∧
    ∃ o, p'.shared.store e.uid = some (.object o) ∧ o.kind = k ∧ o.label? = l
  /-- and so does every other object -/
  kept : ∀ u o, p.shared.store u = some (.object o) →
    ∃ o', p'.shared.store u = some (.object o') ∧ o'.kind = o.kind ∧ o'.label? = o.label?

variable {calls : ι → FsCall} {threads : ι → Thread} {w : World} {schedule : List ι}

/-- What a creation that has returned has made. -/
theorem made_of_pure {i : ι} {k : DentKind} {l : Option Buckle} {e : DirEntry}
    (hc : (calls i).creates = some (k, l))
    (hp : (runFs calls threads w schedule).prog i = .pure (.entry e)) :
    Made i k l (.ok e) (runFs calls threads w schedule).shared := by
  have h := (runFs_holds calls threads w schedule).ok hp
  have hpromise : ∃ r', Except.ok (FsResult.entry e) = Except.map .entry r' ∧
      Made i k l r' (runFs calls threads w schedule).shared := by
    cases hcall : calls i <;> rw [hcall] at h hc <;> first | exact h k l hc | cases hc
  obtain ⟨r', hr', hm⟩ := hpromise
  cases r' with
  | error x => cases hr'
  | ok e' =>
    cases hr'
    exact hm

/-- **Object identity is stable**, for any number of clients and any interleaving of all operations
of the file system. -/
theorem identity_stable (calls : ι → FsCall) (threads : ι → Thread) (w : World)
    (schedule later : List ι) :
    StableIdentity calls (initialized w).store (runFs calls threads w schedule)
      (runFs calls threads w (schedule ++ later)) := by
  have hp := runFs_holds calls threads w schedule
  have hinv : Inv calls (initialized w).store (runFs calls threads w schedule).shared := hp.inv
  have hext := runFs_extends calls threads w schedule later
  refine ⟨hinv.distinct, fun u hu => ?_, fun i k l e hc he => ?_,
    fun i j k l k' l' e e' hc he hc' he' hij heq => ?_, fun i u v k hput => ?_,
    fun i k l e hc he => ?_, fun u o ho => ?_⟩
  · obtain ⟨a, ha, hu⟩ := List.mem_filterMap.1 hu
    have hs₀ := (hinv.owned u _ (hinv.reservations a ha u hu)).2
    refine ⟨hs₀, ?_⟩
    rintro rfl
    exact (inv_start calls w).root hs₀
  · exact hinv.reserved e.uid i (made_of_pure hc he e rfl).2.1
  · have hi := (made_of_pure hc he e rfl).2.1
    have hj := (made_of_pure hc' he' e' rfl).2.1
    rw [heq, hj] at hi
    exact hij (Option.some.inj hi).symm
  · have hg : Guar calls i (.put u v) (runFs calls threads w schedule).shared := hp.guar hput
    obtain ⟨o, rfl, ⟨hown, hres, -⟩ | ⟨old, hold, -, hk, hl⟩⟩ := hg
    · exact ⟨o, rfl, .inl ⟨hown, hres⟩⟩
    · exact ⟨o, rfl, .inr ⟨old, hold, hk, hl⟩⟩
  · have hmade := made_of_pure hc (runFs_pure he later) e rfl
    exact ⟨hmade.1, hmade.2.2⟩
  · obtain ⟨o', ho', hb⟩ := hext.objects u o ho
    exact ⟨o', ho', hb.kind, hb.label⟩

end FileSystem

end Faasten
