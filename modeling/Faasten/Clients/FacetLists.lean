import Mathlib
import Faasten.Clients.Identity
import Faasten.DcLabels

/-!
# One directory per facet

`open` looks for the facet in the list; if it is not there, it creates a directory for it, and tries
to swap in the list extended by the new entry. When the swap fails it starts again with the list that
it found, and the directory it created stays unused.

`facet_allocated_once` says what follows for a faceted directory that a client has created, whatever
the clients do: the list only grows, by entries for facets that it does not hold yet, so that
everyone who opens a facet is given the same directory.
-/

namespace Faasten

open Std Effect

/-- Entries with distinct labels are found under their labels. -/
theorem FacetedDirectory.getElem?_visible [LabelCrate] {d : FacetedDirectory} {clearance : Buckle}
    (h : (d.facets.map Prod.fst).Nodup) (f : Buckle) (v : Uid) :
    (d.visible clearance)[f]? = some v ↔ (f, v) ∈ d.facets ∧ canFlowTo f clearance := by
  have hdistinct : (d.facets.filter fun e => canFlowTo e.1 clearance).Pairwise
      fun a b => ¬LabelCrate.cmp a.1 b.1 = .eq := by
    refine ((List.pairwise_map.1 h).filter _).imp fun hne hcmp => ?_
    exact hne (LawfulEqCmp.eq_of_compare hcmp)
  have hfound : ∀ v, (f, v) ∈ d.facets → canFlowTo f clearance →
      (d.visible clearance)[f]? = some v := by
    intro v hv hf
    exact ExtTreeMap.getElem?_ofList_of_mem ReflCmp.compare_self hdistinct
      (List.mem_filter.2 ⟨hv, hf⟩)
  constructor
  · intro hv
    -- what is found is some entry for `f`, and there is only one
    have hmem : f ∈ d.visible clearance := by
      rw [ExtTreeMap.mem_iff_isSome_getElem?, hv]
      rfl
    rw [FacetedDirectory.visible, ExtTreeMap.mem_ofList, List.contains_iff_mem] at hmem
    obtain ⟨⟨g, v'⟩, hg, rfl⟩ := List.mem_map.1 hmem
    obtain ⟨hg, hflow⟩ := List.mem_filter.1 hg
    rw [hfound v' hg hflow] at hv
    cases hv
    exact ⟨hg, hflow⟩
  · exact fun hv => hfound v hv.1 hv.2

namespace FileSystem

variable {ι : Type} [DecidableEq ι] [LabelCrate]

/-- The faceted directory `u` in a run that has come to `p` and later comes to `p'`. -/
structure AllocatedOnce (calls : ι → FsCall) (u : Uid)
    (p p' : Pool monitor Raised FsResult ι Thread (Shared ι)) (d : FacetedDirectory) : Prop where
  /-- the list of facets -/
  current : p.shared.store u = some (.object (.facetedDirectory d))
  /-- no two entries have the same label -/
  nodup : (d.facets.map Prod.fst).Nodup
  /-- the entry of a facet is a directory with the label of the facet -/
  allocated : ∀ f v, (f, v) ∈ d.facets →
    ∃ dir : Labeled Directory, p.shared.store v = some (.object (.directory dir)) ∧ dir.label = f
  /-- no entry is removed or changed later -/
  grows : ∃ d', p'.shared.store u = some (.object (.facetedDirectory d')) ∧ d.facets <+: d'.facets
  /-- who has opened a facet was given its entry -/
  opened : ∀ i n f v, calls i = .facetOpen n u f → p.prog i = .pure (.uid v) → (f, v) ∈ d.facets
  /-- and so everyone was given the same -/
  same : ∀ i j n n' f v v', calls i = .facetOpen n u f → p.prog i = .pure (.uid v) →
    calls j = .facetOpen n' u f → p.prog j = .pure (.uid v') → v = v'
  /-- who has listed the facets was given those that the clearance shows of the list, as it was at
  some moment of the call -/
  listed : ∀ i c m, calls i = .facetList u c → p.prog i = .pure (.facets m) →
    ∃ a ∈ p.shared.log, a.client = i ∧ ∃ d₀, a.before u = some (.object (.facetedDirectory d₀)) ∧
      d₀.facets <+: d.facets ∧ ∀ f v, m[f]? = some v ↔ (f, v) ∈ d₀.facets ∧ canFlowTo f c

/-- **There is one directory per facet**, for any number of clients and any interleaving of their
calls, in every faceted directory that has been created. -/
theorem facet_allocated_once (calls : ι → FsCall) (threads : ι → Thread) (w : World)
    (schedule later : List ι) (k : ι) (rounds : ℕ) (u : Uid)
    (hk : calls k = .createFacetedDirectory rounds)
    (hret : (runFs calls threads w schedule).prog k = .pure (.entry (.facetedDirectory u))) :
    ∃ d, AllocatedOnce calls u (runFs calls threads w schedule)
      (runFs calls threads w (schedule ++ later)) d := by
  have hp := runFs_holds calls threads w schedule
  have hinv : Inv calls (initialized w).store (runFs calls threads w schedule).shared := hp.inv
  have hext := runFs_extends calls threads w schedule later
  have hcreates : (calls k).creates = some (.dentFacetedDirectory, none) := by rw [hk]; rfl
  obtain ⟨-, howner, o, ho, hkind, -⟩ := made_of_pure hcreates hret _ rfl
  change (runFs calls threads w schedule).shared.store u = _ at ho
  obtain ⟨d, rfl⟩ : ∃ d, o = .facetedDirectory d := by
    cases o with
    | facetedDirectory d => exact ⟨d, rfl⟩
    | _ => cases hkind
  have hsound := hinv.facets u d (hinv.owned u k howner).2 ho
  have hopened : ∀ i n f v, calls i = .facetOpen n u f →
      (runFs calls threads w schedule).prog i = .pure (.uid v) → (f, v) ∈ d.facets := by
    intro i n f v hi hv
    have h := hp.ok hv
    rw [hi] at h
    obtain ⟨r', hr, t', -, hopen⟩ := h
    cases r' with
    | error x => cases hr
    | ok v' =>
      cases hr
      obtain ⟨d', hd', hmem⟩ := hopen
      obtain rfl : d = d' := by simpa [ho] using hd'
      exact hmem
  refine ⟨d, ho, hsound.nodup, hsound.allocated, ?_, hopened, ?_, ?_⟩
  · obtain ⟨o', ho', hb⟩ := hext.objects u _ ho
    obtain ⟨d', rfl, hpre⟩ := hb.facets d rfl
    exact ⟨d', ho', hpre⟩
  · intro i j n n' f v v' hi hv hj hv'
    have hmem := hopened i n f v hi hv
    have hmem' := hopened j n' f v' hj hv'
    -- two entries with one label are one entry
    exact congrArg Prod.snd (List.inj_on_of_nodup_map hsound.nodup hmem hmem' rfl)
  · intro i c m hi hm
    have h := hp.ok hm
    rw [hi] at h
    obtain ⟨r', hr, hlist⟩ := h
    cases r' with
    | error x => cases hr
    | ok m' =>
      cases hr
      obtain ⟨a, ha, hclient, d₀, hbefore, ⟨o', ho', hb⟩, rfl⟩ := hlist m rfl
      obtain ⟨d', rfl, hpre⟩ := hb.facets d₀ rfl
      obtain rfl : d = d' := by simpa [ho] using ho'
      refine ⟨a, ha, hclient, d₀, hbefore, hpre, fun f v => ?_⟩
      exact FacetedDirectory.getElem?_visible
        (hsound.nodup.sublist (hpre.sublist.map Prod.fst)) f v

end FileSystem

/-! ### A race for a facet -/

namespace FacetRace

open FileSystem
open scoped Dc

/-- The facet that two clients want to open. -/
def facet : Buckle := ⟨.single ["alice"], .single ["alice"]⟩

/-- The first call creates the faceted directory, the others open the facet. -/
def calls : ℕ → FsCall
  | 0 => .createFacetedDirectory 1
  | _ => .facetOpen 2 100 facet

/-- Threads without privilege, on an empty store. -/
def after (schedule : List ℕ) : Pool monitor Raised FsResult ℕ Thread (Shared ℕ) :=
  runFs calls (fun _ => .idle publicLabel) (.quiet (.idle publicLabel) .empty) schedule

/-- Both clients find the list empty and create a directory. The second swap fails, and the client
returns what it then finds. -/
theorem both_given_the_same :
    (after [0, 0, 0, 1, 2, 1, 1, 1, 2, 2, 2, 1, 2]).prog 1 = .pure (.uid 101) ∧
      (after [0, 0, 0, 1, 2, 1, 1, 1, 2, 2, 2, 1, 2]).prog 2 = .pure (.uid 101) ∧
      ∃ d, AllocatedOnce calls 100 (after [0, 0, 0, 1, 2, 1, 1, 1, 2, 2, 2, 1, 2])
        (after ([0, 0, 0, 1, 2, 1, 1, 1, 2, 2, 2, 1, 2] ++ [])) d :=
  ⟨rfl, rfl, facet_allocated_once calls _ _ _ [] 0 1 100 rfl rfl⟩

end FacetRace

end Faasten
