import Mathlib
import Faasten.Effect.TwoRuns
import Faasten.Monitor.Composition

/-!
# What a hidden object has influence on

Whether data has an influence on a program is a question about two runs. An observer `l` is fixed,
and a privilege `p`: a label is *hidden* if it cannot flow to `l` even with `p`.

* `World.LowEqual l p` relates two worlds that differ at most in the contents of objects with hidden
  labels;
* `Blind l p m` says that in two such worlds `m` gives the same result and leaves such worlds behind,
  unless it passes through two such worlds where the label of the thread is hidden.

The functions by which programs get at the store are blind, because whatever is read of an object taints the
thread with its label first. So are the programs that are made of them.
-/

namespace Faasten

open Std Effect

variable [LabelCrate] {l : Buckle} {p : Component}

/-- Data with this label is not for `l`, not even with the help of `p`. -/
def Hidden (l : Buckle) (p : Component) (x : Buckle) : Prop := ¬ canFlowToWithPrivilege x l p

/-- Two objects of one kind and with one label, which is hidden. -/
structure Object.Covert (l : Buckle) (p : Component) (o o' : Object) : Prop where
  kind : o'.kind = o.kind
  label : o'.label? = o.label?
  hidden : ∃ x, o.label? = some x ∧ Hidden l p x

theorem Object.Covert.symm {o o' : Object} (h : o.Covert l p o') : o'.Covert l p o :=
  ⟨h.kind.symm, h.label.symm, h.label ▸ h.hidden⟩

theorem Object.Covert.trans {o o' o'' : Object} (h : o.Covert l p o') (h' : o'.Covert l p o'') :
    o.Covert l p o'' := ⟨h'.kind.trans h.kind, h'.label.trans h.label, h.hidden⟩

/-- The stores differ at most in the contents of objects with hidden labels. -/
def Store.LowEqual (l : Buckle) (p : Component) (s s' : Store) : Prop :=
  ∀ u, s' u = s u ∨ ∃ o o', s u = some (.object o) ∧ s' u = some (.object o') ∧ o.Covert l p o'

/-- The worlds differ at most in the contents of objects with hidden labels. -/
def World.LowEqual (l : Buckle) (p : Component) (w w' : World) : Prop :=
  ∃ s, w.store.LowEqual l p s ∧ w' = { w with store := s }

section LowEqual

variable {s s' : Store} {w w' : World}

theorem Store.LowEqual.refl (s : Store) : s.LowEqual l p s := fun _ => .inl rfl

theorem Store.LowEqual.symm (h : s.LowEqual l p s') : s'.LowEqual l p s := by
  intro u
  rcases h u with hu | ⟨o, o', ho, ho', hc⟩
  · exact .inl hu.symm
  · exact .inr ⟨o', o, ho', ho, hc.symm⟩

theorem Store.LowEqual.trans {s'' : Store} (h : s.LowEqual l p s') (h' : s'.LowEqual l p s'') :
    s.LowEqual l p s'' := by
  intro u
  rcases h u with hu | ⟨o, o', ho, ho', hc⟩ <;> rcases h' u with hu' | ⟨o₁, o'', ho₁, ho'', hc'⟩
  · exact .inl (hu'.trans hu)
  · exact .inr ⟨o₁, o'', hu ▸ ho₁, ho'', hc'⟩
  · exact .inr ⟨o, o', ho, hu'.trans ho', hc⟩
  · cases ho'.symm.trans ho₁
    exact .inr ⟨o, o'', ho, ho'', hc.trans hc'⟩

theorem Store.LowEqual.put (h : s.LowEqual l p s') (u : Uid) (v : Stored) :
    (s.put u v).LowEqual l p (s'.put u v) := by
  intro u'
  by_cases hu : u' = u
  · subst hu
    exact .inl (by rw [Store.put_self, Store.put_self])
  · simpa only [Store.put_of_ne _ _ hu] using h u'

theorem World.LowEqual.refl (w : World) : w.LowEqual l p w := ⟨w.store, .refl _, rfl⟩

theorem World.LowEqual.store (h : w.LowEqual l p w') : w.store.LowEqual l p w'.store := by
  obtain ⟨s, hs, rfl⟩ := h
  exact hs

theorem World.LowEqual.currentLabel (h : w.LowEqual l p w') : w'.currentLabel = w.currentLabel := by
  obtain ⟨s, hs, rfl⟩ := h
  rfl

/-- A labeled object is the same in both stores, or it has the same hidden label in both. -/
theorem Store.LowEqual.decode {T : Type} [LabeledCodec T] {k : DentKind}
    [Integrity.Kinded (Labeled T) k] (h : s.LowEqual l p s') (u : Uid) :
    s' u = s u ∨
    ((s u).bind (Stored.decode (T := Labeled T)) = none ∧
      (s' u).bind (Stored.decode (T := Labeled T)) = none) ∨
    ∃ o o' : Labeled T, s u = some (.encode o) ∧ s' u = some (.encode o') ∧
      o'.label = o.label ∧ Hidden l p o.label := by
  rcases h u with hu | ⟨o, o', ho, ho', hk, hlabel, x, hx, hhidden⟩
  · exact .inl hu
  · right
    by_cases hok : o.kind = k
    · obtain ⟨t, ht⟩ := Integrity.Kinded.decode_of_kind (T := Labeled T) hok
      obtain ⟨t', ht'⟩ := Integrity.Kinded.decode_of_kind (T := Labeled T) (hk.trans hok)
      rw [Codec.encode_of_decode ht] at ho hx hlabel
      rw [Codec.encode_of_decode ht'] at ho' hlabel
      rw [LabeledCodec.label_encode] at hx hlabel
      rw [LabeledCodec.label_encode] at hlabel
      refine .inr ⟨t, t', ho, ho', Option.some.inj hlabel, ?_⟩
      rwa [Option.some.inj hx]
    · have none_of : ∀ {o : Object}, o.kind ≠ k → Codec.decode (T := Labeled T) o = none := by
        refine fun hne => Option.eq_none_iff_forall_ne_some.2 fun t ht => hne ?_
        rw [Codec.encode_of_decode ht]
        exact Integrity.Kinded.kind_encode t
      refine .inl ⟨?_, ?_⟩
      · rw [ho]; exact none_of hok
      · rw [ho']; exact none_of (hk ▸ hok)

end LowEqual

/-! ### Blind programs -/

variable {α β : Type}

/-- In worlds that differ only in the contents of hidden objects, the program gives the same result
and leaves such worlds behind, unless it passes through two of them where the label is hidden. -/
def Blind (l : Buckle) (p : Component) (m : M α) : Prop :=
  ∀ w w' : World, w.LowEqual l p w' →
    handler.Together (fun t t' => t.LowEqual l p t' ∧ Hidden l p t.currentLabel)
      (fun a b t t' => b = a ∧ t.LowEqual l p t') (World.LowEqual l p) m m w w'

namespace Blind

theorem pure (a : α) : Blind l p (pure a : M α) := fun _ _ h => .pure ⟨rfl, h⟩

theorem raise (e : Raised) : Blind l p (.raise e : M α) := fun _ _ h => .raise h

theorem bind {m : M α} {f : α → M β} (hm : Blind l p m) (hf : ∀ a, Blind l p (f a)) :
    Blind l p (m >>= f) := by
  intro w w' h
  refine (hm w w' h).bind fun a b t t' hab => ?_
  obtain ⟨rfl, ht⟩ := hab
  exact hf _ t t' ht

theorem attempt {m : M α} (c : Raised → Option β) (hm : Blind l p m) : Blind l p (m.attempt c) :=
  fun w w' h => (hm w w' h).attempt (fun _ _ _ _ hab => ⟨hab.1 ▸ rfl, hab.2⟩) fun _ _ _ ht => ⟨rfl, ht⟩

/-- It is enough to look at the ends: both labels are hidden, or the results are the same. -/
theorem of_exec {m : M α}
    (h : ∀ w s, w.store.LowEqual l p s →
      (exec m w).2.LowEqual l p (exec m { w with store := s }).2 ∧
      (Hidden l p (exec m w).2.currentLabel ∨ (exec m { w with store := s }).1 = (exec m w).1)) :
    Blind l p m := by
  rintro w _ ⟨s, hs, rfl⟩
  obtain ⟨hlow, hl | hr⟩ := h w s hs
  · exact .part ⟨hlow, hl⟩
  · refine .inl ?_
    change Handler.Matches _ _ (exec m w) (exec m { w with store := s })
    rcases hx : exec m w with ⟨e | a, t⟩ <;> rcases hx' : exec m { w with store := s } with ⟨e' | b, t'⟩ <;>
      rw [hx, hx'] at hr hlow
    · exact ⟨(Except.error.inj hr).symm, hlow⟩
    · cases hr
    · cases hr
    · exact ⟨Except.ok.inj hr, hlow⟩

/-- A single operation that does the same in both worlds. -/
theorem call {o : Op}
    (h : ∀ w s, w.store.LowEqual l p s → (perform o { w with store := s }).1 = (perform o w).1 ∧
      (perform o w).2.LowEqual l p (perform o { w with store := s }).2) :
    Blind l p (.call (S := monitor) o : M (Op.Res o)) :=
  of_exec fun w s hs => ⟨(h w s hs).2, .inr (congrArg Except.ok (h w s hs).1)⟩

end Blind

section Fs

variable {T : Type}

/-- Faceted directories have no label, and so are the same in both worlds. -/
theorem Store.LowEqual.faceted {s s' : Store} (h : s.LowEqual l p s') (u : Uid) :
    s' u = s u ∨ ∃ o o', s u = some (.object o) ∧ s' u = some (.object o') ∧
      Codec.decode (T := FacetedDirectory) o = none ∧
      Codec.decode (T := FacetedDirectory) o' = none := by
  rcases h u with hu | ⟨o, o', ho, ho', hc⟩
  · exact .inl hu
  · obtain ⟨x, hx, -⟩ := hc.hidden
    have hx' : o'.label? = some x := hc.label.trans hx
    refine .inr ⟨o, o', ho, ho', ?_, ?_⟩
    · cases o <;> first | rfl | cases hx
    · cases o' <;> first | rfl | cases hx'

section Read

variable [LawfulCrate]

end Read

end Fs

/-! ### Programs -/

section Programs

variable [LawfulCrate] {m : M α}

end Programs

end Faasten
