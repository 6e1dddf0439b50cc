import Mathlib
import Faasten.Clients.Processors

/-!
# Access to objects of a known kind

The operations of `fs/mod.rs` and of the blobstore, called on a reference that is true. Each lemma
says that the operation keeps to the discipline, and what its result refers to; none of the
`get(..).unwrap()`s in them panics, since what is referred to stays there.
-/

namespace Faasten

open Std Effect

namespace Integrity

variable {ι α : Type} {w₀ : World} {ok : Prop} {i : ι} {t : Thread} {s s' : Shared ι}

/-- The type at which objects of a kind are read and written. -/
class Kinded (T : Type) [Codec T] (k : outParam DentKind) : Prop where
  kind_encode : ∀ t : T, (Codec.encode t).kind = k
  decode_of_kind : ∀ {o : Object}, o.kind = k → ∃ t : T, Codec.decode o = some t

instance : Kinded (Labeled Directory) .dentDirectory where
  kind_encode _ := rfl
  decode_of_kind {o} h := by cases o <;> first | exact ⟨_, rfl⟩ | cases h

instance : Kinded (Labeled File) .dentFile where
  kind_encode _ := rfl
  decode_of_kind {o} h := by cases o <;> first | exact ⟨_, rfl⟩ | cases h

instance : Kinded FacetedDirectory .dentFacetedDirectory where
  kind_encode _ := rfl
  decode_of_kind {o} h := by cases o <;> first | exact ⟨_, rfl⟩ | cases h

instance : Kinded (Labeled Gate) .dentGate where
  kind_encode _ := rfl
  decode_of_kind {o} h := by cases o <;> first | exact ⟨_, rfl⟩ | cases h

instance : Kinded (Labeled Service) .dentService where
  kind_encode _ := rfl
  decode_of_kind {o} h := by cases o <;> first | exact ⟨_, rfl⟩ | cases h

instance : Kinded (Labeled Blob) .dentBlob where
  kind_encode _ := rfl
  decode_of_kind {o} h := by cases o <;> first | exact ⟨_, rfl⟩ | cases h

/-- What may be referred to: an object whose references are true, a blob with a saved name. -/
def Good (s : Shared ι) (o : Object) : Prop :=
  Fit s o ∧ ∀ b, o = .blob b → Saved s.world.blobstore b.data

theorem Good.grow {o : Object} (h : Good s o) (hs : Grow s s') : Good s' o :=
  ⟨h.1.grow hs, fun b hb => hs.saved _ (h.2 b hb)⟩

theorem good_gate {g : Gate} (h : FitGate s g) (l : Buckle) :
    Good s (Codec.encode (⟨l, g⟩ : Labeled Gate)) := ⟨h, nofun⟩

theorem good_service (v : Service) (l : Buckle) :
    Good s (Codec.encode (⟨l, v⟩ : Labeled Service)) := ⟨True.intro, nofun⟩

theorem good_file (v : File) (l : Buckle) : Good s (Codec.encode (⟨l, v⟩ : Labeled File)) :=
  ⟨True.intro, nofun⟩

theorem good_blob {name : Blob} (h : Saved s.world.blobstore name) (l : Buckle) :
    Good s (Codec.encode (⟨l, name⟩ : Labeled Blob)) :=
  ⟨True.intro, fun _ hb => Object.blob.inj hb ▸ h⟩

theorem fit_emptyDirectory (l : Buckle) : Fit s (.directory ⟨l, {}⟩) := by
  intro name e he
  change (∅ : ExtTreeMap String DirEntry compare)[name]? = some e at he
  simp at he

/-! ### Objects -/

section Objects

variable {T : Type} {k : DentKind} {u : Uid}

/-- What is found under a uid of a known kind. -/
theorem HasKind.decode [Codec T] [Kinded T k] (h : HasKind s.store u k) (hi : Inv w₀ s) :
    ∃ x : T, (s.store u).bind Stored.decode = some x ∧ Fit s (Codec.encode x) := by
  obtain ⟨o, ho, hk⟩ := h
  obtain ⟨x, hx⟩ := Kinded.decode_of_kind (T := T) hk
  refine ⟨x, by rw [ho]; exact hx, ?_⟩
  rw [← Codec.encode_of_decode hx]
  exact hi.fit u o ho

theorem safe_get [Codec T] [Kinded T k] (h : HasKind s.store u k) :
    Safe w₀ ok i (fun v s => ∃ x, v = some x ∧ Fit s (Codec.encode x)) (ObjectRef.get T u) t s := by
  refine .map (B := fun v s => ∃ x : T, v.bind Stored.decode = some x ∧ Fit s (Codec.encode x)) _
    (.call (fun _ _ _ _ _ => True.intro) fun s₁ s₂ hs hi₁ _ hs₂ _ => ?_) fun v _ _ hv => hv
  obtain ⟨x, hx, hfit⟩ := (hs.kinds u k h).decode (T := T) hi₁
  exact ⟨x, hx, hfit.grow hs₂⟩

/-- The name in a blob object that is referred to is that of a saved blob. -/
theorem safe_getBlob (h : Refers s (.blob u)) :
    Safe w₀ ok i (fun v s => ∃ x, v = some x ∧ Saved s.world.blobstore x.data)
      (ObjectRef.get (Labeled Blob) u) t s := by
  refine .map (B := fun v s => ∃ x : Labeled Blob, v.bind Stored.decode = some x ∧
    Saved s.world.blobstore x.data) _
    (.call (fun _ _ _ _ _ => True.intro) fun s₁ s₂ hs hi₁ _ hs₂ _ => ?_) fun v _ _ hv => hv
  obtain ⟨o, ho, hk, hb⟩ := hs.refers _ h
  obtain ⟨x, hx⟩ := Kinded.decode_of_kind (T := Labeled Blob) hk
  have hfound : s₁.store u = some (.object o) := ho
  refine ⟨x, ?_, hs₂.saved _ (hb x (Codec.encode_of_decode hx))⟩
  change (s₁.store u).bind Stored.decode = some x
  rw [hfound]
  exact hx

/-- Reserve a place and write to it: nobody else writes there in between. -/
theorem safe_setNewId [Codec T] [Kinded T k] (n : ℕ) {v : T} (hi : Inv w₀ s) (ht : Tables t s)
    (hv : Fit s (Codec.encode v)) :
    Safe w₀ ok i (fun u s => HasKind s.store u k) (ObjectRef.setNewId n v) t s := by
  induction n generalizing t s with
  | zero => exact .raise fun _ h => by cases h
  | succ n ih =>
    refine .bind (B := fun _ _ => True) hi ht
      (.call (fun _ _ _ _ _ => True.intro) fun _ _ _ _ _ _ _ => True.intro)
      fun u t₁ s₁ hi₁ ht₁ hs₁ _ => ?_
    refine .bind (B := fun b s => b = true → s.owner u = some i ∧ s.store u = some .reserved)
      hi₁ ht₁ (.call (fun _ _ _ _ _ _ => rfl) fun s₂ s₃ _ _ _ _ henv => ?_)
      fun b t₂ s₂ hi₂ ht₂ hs₂ hb => ?_
    · rw [clients_add] at henv ⊢
      split_ifs at henv ⊢ with hu
      · intro _
        have hown : (s₂.claimed i u .reserved).owner u = some i := Function.update_self _ _ _
        exact ⟨henv.owner u i hown, henv.reserved u hown (Store.put_self _ _ _)⟩
      · exact fun h => by cases h
    cases b with
    | false => exact ih hi₂ ht₂ (hv.grow (hs₁.trans hs₂))
    | true =>
      obtain ⟨hown, hres⟩ := hb rfl
      have hfit := hv.grow (hs₁.trans hs₂)
      refine .bind (B := fun _ s => HasKind s.store u k) hi₂ ht₂ (.call ?_ ?_)
        fun _ _ s₃ _ _ _ hk => .pure fun s' hs => hs.kinds u k hk
      · intro s₃ hs₃ _ _ henv
        exact ⟨_, rfl, hfit.grow hs₃, .inl ⟨hs₃.owner u i hown, henv.reserved u hown hres⟩⟩
      · intro s₃ s₄ _ _ _ _ henv
        exact henv.kinds u k ⟨_, Store.put_self _ _ _, Kinded.kind_encode v⟩

/-- An object that someone else swapped in fits too. -/
theorem safe_cas [Codec T] [Kinded T k] {x : Option T} {v : T} (hi : Inv w₀ s) (ht : Tables t s)
    (h : HasKind s.store u k) (hk : k ≠ .dentBlob) (hv : Fit s (Codec.encode v)) :
    Safe w₀ ok i (fun r s => ∀ p, r = .error (some p) → Fit s (Codec.encode p))
      (ObjectRef.cas u x v) t s := by
  have hkind := Kinded.kind_encode v
  refine .bind (B := fun (r : Except (Option Stored) Unit) s =>
    ∀ o, r = .error (some (.object o)) → Fit s o) hi ht (.call ?_ ?_) fun r t₁ s₁ _ _ _ hr => ?_
  · intro s₁ hs₁ _ _ _ _
    exact ⟨_, rfl, hv.grow hs₁, hkind ▸ hs₁.kinds u k h, hkind ▸ hk⟩
  · intro s₁ s₂ _ hi₁ _ hs₂ _ o ho
    rw [clients_cas] at ho
    split_ifs at ho
    exact (hi₁.fit u o (Except.error.inj ho)).grow hs₂
  · rcases r with found | _
    · refine .pure fun s' hs p hp => ?_
      have hfound := decode_eq_some (Except.error.inj hp)
      exact (hr _ (congrArg Except.error hfound)).grow hs
    · exact .pure fun s' hs p hp => by cases hp

end Objects

/-! ### Labeled objects -/

section Labeled

variable [LabelCrate] {T : Type} {k : DentKind} {u : Uid}

theorem safe_unlabel (hi : Inv w₀ s) (ht : Tables t s) (o : Labeled T) :
    Safe w₀ ok i (fun v _ => v = o.data) o.unlabel t s :=
  safe_withCurrentLabel hi ht fun _ => ⟨_, _, rfl, rfl⟩

theorem safe_read [LabeledCodec T] [Kinded (Labeled T) k] (hi : Inv w₀ s) (ht : Tables t s)
    (h : HasKind s.store u k) :
    Safe w₀ ok i (fun v s => ∃ l, Fit s (Codec.encode (⟨l, v⟩ : Labeled T))) (ObjectRef.read T u)
      t s := by
  refine .bind hi ht (safe_get h) fun v t₁ s₁ hi₁ ht₁ _ hv => ?_
  obtain ⟨x, rfl, hx⟩ := hv
  refine (safe_unlabel hi₁ ht₁ x).mono fun v s₂ hs₂ hv => ⟨x.label, ?_⟩
  rw [hv]
  exact hx.grow hs₂

theorem safe_readBlob (hi : Inv w₀ s) (ht : Tables t s) (h : Refers s (.blob u)) :
    Safe w₀ ok i (fun v s => Saved s.world.blobstore v) (ObjectRef.read Blob u) t s := by
  refine .bind hi ht (safe_getBlob h) fun v t₁ s₁ hi₁ ht₁ _ hv => ?_
  obtain ⟨x, rfl, hx⟩ := hv
  refine (safe_unlabel hi₁ ht₁ x).mono fun v s₂ hs₂ hv => ?_
  rw [hv]
  exact hs₂.saved _ hx

theorem safe_checkFlow {a : α} (hi : Inv w₀ s) (ht : Tables t s) (l : Buckle) :
    Safe w₀ ok i (fun b _ => b = a)
      (do
        let current ← getCurrentLabel
        let privilege ← getPrivilege
        if canFlowToWithPrivilege current l privilege then return a
        else throwFs (.labelError .cannotWrite)) t s := by
  refine .bind hi ht (safe_getCurrentLabel hi ht) fun c t₁ s₁ hi₁ ht₁ _ _ => ?_
  refine .bind hi₁ ht₁ (safe_getPrivilege hi₁ ht₁) fun p t₂ s₂ _ _ _ _ => ?_
  split_ifs
  · exact .pure fun _ _ => rfl
  · exact .throwFs

theorem safe_write (hi : Inv w₀ s) (ht : Tables t s) (o : Labeled T) (v : T) :
    Safe w₀ ok i (fun r _ => r = { o with data := v }) (o.write v) t s :=
  safe_checkFlow hi ht o.label

theorem safe_modify {R : Type} (hi : Inv w₀ s) (ht : Tables t s) (o : Labeled T) (f : T → R × T) :
    Safe w₀ ok i (fun r _ => r = ((f o.data).1, { o with data := (f o.data).2 })) (o.modify f)
      t s := by
  refine .bind (B := fun _ _ => True) hi ht
    (safe_withCurrentLabel hi ht fun _ => ⟨_, _, rfl, True.intro⟩) fun _ t₁ s₁ hi₁ ht₁ _ _ => ?_
  exact safe_checkFlow hi₁ ht₁ o.label

/-- Afterwards the entry of the object's kind is a true reference. -/
theorem safe_overwrite [LabeledCodec T] [Kinded (Labeled T) k] (hi : Inv w₀ s)
    (ht : Tables t s) (h : HasKind s.store u k) {v : T} (hv : ∀ l, Good s (Codec.encode (⟨l, v⟩ : Labeled T))) :
    Safe w₀ ok i (fun _ s => ∀ e : DirEntry, e.uid = u → e.kind = k → Refers s e)
      (ObjectRef.overwrite u v) t s := by
  refine .bind hi ht (safe_get h) fun x t₁ s₁ hi₁ ht₁ hs₁ hx => ?_
  obtain ⟨x, rfl, -⟩ := hx
  change Safe w₀ ok i _ (x.write v >>= fun o => ObjectRef.set u o) t₁ s₁
  refine .bind hi₁ ht₁ (safe_write hi₁ ht₁ x v) fun o t₂ s₂ hi₂ ht₂ hs₂ ho => ?_
  subst ho
  have hkind := Kinded.kind_encode (⟨x.label, v⟩ : Labeled T)
  have hgood : ∀ s', Grow s₂ s' → Good s' (Codec.encode (⟨x.label, v⟩ : Labeled T)) :=
    fun s' hs => (hv x.label).grow ((hs₁.trans hs₂).trans hs)
  refine .call (fun s₃ hs₃ _ _ _ => ?_) fun s₃ s₄ hs₃ _ _ _ henv e hu hk => ?_
  · refine ⟨_, rfl, (hgood s₃ hs₃).1, .inr ⟨?_, (hgood s₃ hs₃).2⟩⟩
    rw [hkind]
    exact ((hs₁.trans hs₂).trans hs₃).kinds u k h
  · refine henv.refers e ⟨_, ?_, hkind.trans hk.symm, (hgood s₃ hs₃).2⟩
    rw [hu]
    exact Store.put_self _ _ _

end Labeled

/-! ### Directories and facets -/

section Directories

variable [LabelCrate] {u : Uid}

theorem safe_list (hi : Inv w₀ s) (ht : Tables t s) (h : Refers s (.directory u)) :
    Safe w₀ ok i (fun es s => ∀ (name : String) e, es[name]? = some e → Refers s e)
      (Directory.list u) t s :=
  .map _ (safe_read hi ht h.hasKind) fun _ _ _ ⟨_, hfit⟩ => hfit

/-- The loop of `link` and `unlink`, for a change that brings in true references only. -/
theorem safe_updateLoop {f : Directory → Bool × Directory} {skip : Bool} (n : ℕ)
    {d : Labeled Directory} (hi : Inv w₀ s) (ht : Tables t s) (h : Refers s (.directory u))
    (hd : Fit s (.directory d))
    (hf : ∀ s' (l : Buckle) d, Grow s s' → Fit s' (.directory ⟨l, d⟩) →
      Fit s' (.directory ⟨l, (f d).2⟩)) :
    Safe w₀ ok i (fun _ _ => True) (Directory.updateLoop u f skip n d) t s := by
  induction n generalizing t s d with
  | zero => exact .raise fun _ h => by cases h
  | succ n ih =>
    refine .bind hi ht (safe_modify hi ht d f) fun r t₁ s₁ hi₁ ht₁ hs₁ hr => ?_
    subst hr
    simp only
    split_ifs
    · exact .pure fun _ _ => True.intro
    have hfit := fun s' hs => hf s' d.label d.data (hs₁.trans hs) (hd.grow (hs₁.trans hs))
    refine .bind hi₁ ht₁ (safe_cas hi₁ ht₁ (hs₁.refers _ h).hasKind nofun (hfit s₁ (Std.Refl.refl _)))
      fun r t₂ s₂ hi₂ ht₂ hs₂ hr => ?_
    rcases r with (_ | p) | _
    · exact .pure fun _ _ => True.intro
    · exact ih hi₂ ht₂ ((hs₁.trans hs₂).refers _ h) (hr p rfl) fun s' l d hs =>
        hf s' l d ((hs₁.trans hs₂).trans hs)
    · exact .pure fun _ _ => True.intro

omit [LabelCrate] in
theorem Fit.insert {l : Buckle} {d : Directory} {name : String} {e : DirEntry}
    (h : Fit s (.directory ⟨l, d⟩)) (he : Refers s e) :
    Fit s (.directory ⟨l, (Directory.insert name e d).2⟩) := by
  intro x e' hx
  change (d.entries.insert name e)[x]? = some e' at hx
  rw [ExtTreeMap.getElem?_insert] at hx
  split_ifs at hx
  · cases hx
    exact he
  · exact h x e' hx

omit [LabelCrate] in
theorem Fit.remove {l : Buckle} {d : Directory} {name : String} (h : Fit s (.directory ⟨l, d⟩)) :
    Fit s (.directory ⟨l, (Directory.remove name d).2⟩) := by
  intro x e' hx
  change (d.entries.erase name)[x]? = some e' at hx
  rw [ExtTreeMap.getElem?_erase] at hx
  split_ifs at hx
  exact h x e' hx

theorem safe_link (n : ℕ) {name : String} {e : DirEntry} (hi : Inv w₀ s) (ht : Tables t s)
    (h : Refers s (.directory u)) (he : Refers s e) :
    Safe w₀ ok i (fun _ _ => True) (Directory.link n u name e) t s := by
  refine .bind hi ht (safe_get h.hasKind) fun v t₁ s₁ hi₁ ht₁ hs₁ hv => ?_
  obtain ⟨d, rfl, hd⟩ := hv
  exact safe_updateLoop n hi₁ ht₁ (hs₁.refers _ h) hd fun s' l d hs hd =>
    hd.insert ((hs₁.trans hs).refers e he)

theorem safe_unlink (n : ℕ) {name : String} (hi : Inv w₀ s) (ht : Tables t s)
    (h : Refers s (.directory u)) :
    Safe w₀ ok i (fun _ _ => True) (Directory.unlink n u name) t s := by
  refine .bind hi ht (safe_get h.hasKind) fun v t₁ s₁ hi₁ ht₁ hs₁ hv => ?_
  obtain ⟨d, rfl, hd⟩ := hv
  exact safe_updateLoop n hi₁ ht₁ (hs₁.refers _ h) hd fun s' l d _ hd => hd.remove

omit [LabelCrate] in
theorem safe_openLoop (rounds : ℕ) {facet : Buckle} (n : ℕ) {d : Option FacetedDirectory}
    (hi : Inv w₀ s) (ht : Tables t s) (h : Refers s (.facetedDirectory u))
    (hd : ∀ x, d = some x → Fit s (.facetedDirectory x)) :
    Safe w₀ ok i (fun v s => Refers s (.directory v))
      (FacetedDirectory.openLoop rounds u facet n d) t s := by
  induction n generalizing t s d with
  | zero => exact .raise fun _ h => by cases h
  | succ n ih =>
    unfold FacetedDirectory.openLoop
    cases hfind : d.bind (·.find facet) with
    | some v =>
      obtain ⟨x, hx, hv⟩ := Option.bind_eq_some_iff.1 hfind
      exact .pure fun s' hs => hs.refers _ (hd x hx facet v (FacetedDirectory.mem_of_find hv))
    | none =>
      refine .bind hi ht (safe_setNewId rounds hi ht (fit_emptyDirectory facet))
        fun v t₁ s₁ hi₁ ht₁ hs₁ hv => ?_
      have hnew : Refers s₁ (.directory v) := refers_of_hasKind hv nofun
      refine .bind hi₁ ht₁ (safe_cas hi₁ ht₁ (hs₁.refers _ h).hasKind nofun ?_)
        fun r t₂ s₂ hi₂ ht₂ hs₂ hr => ?_
      · intro f x hx
        rcases List.mem_append.1 hx with hx | hx
        · cases d with
          | none => cases hx
          | some y => exact hs₁.refers _ (hd y rfl f x hx)
        · cases List.mem_singleton.1 hx
          exact hnew
      rcases r with d' | _
      · refine ih hi₂ ht₂ ((hs₁.trans hs₂).refers _ h) fun x hx => ?_
        subst hx
        exact hr x rfl
      · exact .pure fun s' hs => (hs₂.trans hs).refers _ hnew

omit [LabelCrate] in
theorem safe_open (n : ℕ) {facet : Buckle} (hi : Inv w₀ s) (ht : Tables t s)
    (h : Refers s (.facetedDirectory u)) :
    Safe w₀ ok i (fun v s => Refers s (.directory v)) (FacetedDirectory.open' n u facet) t s := by
  refine .bind hi ht (safe_get h.hasKind) fun v t₁ s₁ hi₁ ht₁ hs₁ hv => ?_
  obtain ⟨d, rfl, hd⟩ := hv
  refine safe_openLoop n n hi₁ ht₁ (hs₁.refers _ h) fun x hx => ?_
  cases hx
  exact hd

theorem safe_listFaceted {clearance : Buckle} (hi : Inv w₀ s) (ht : Tables t s)
    (h : Refers s (.facetedDirectory u)) :
    Safe w₀ ok i (fun _ _ => True) (FacetedDirectory.list u clearance) t s := by
  refine .bind (B := fun _ _ => True) hi ht
    (safe_withCurrentLabel hi ht fun _ => ⟨_, _, rfl, True.intro⟩) fun _ t₁ s₁ hi₁ ht₁ hs₁ _ => ?_
  refine .bind hi₁ ht₁ (safe_get (hs₁.refers _ h).hasKind) fun v t₂ s₂ _ _ _ hv => ?_
  obtain ⟨d, rfl, -⟩ := hv
  exact .pure fun _ _ => True.intro

end Directories

/-! ### Gates, services and blobs -/

section Gates

variable [LabelCrate] {u : Uid}

theorem safe_toInvokableLoop (n : ℕ) {g : Gate} {p d c : Component} (hi : Inv w₀ s)
    (ht : Tables t s) (hg : FitGate s g) :
    Safe w₀ ok i (fun g s => FitGate s (.direct g)) (Gate.toInvokableLoop n g p d c) t s := by
  induction n generalizing t s g p d c with
  | zero => exact .raise fun _ h => by cases h
  | succ n ih =>
    cases g with
    | direct g => exact .pure fun s' hs => FitGate.grow (g := .direct g) hg hs
    | redirect g =>
      refine .bind hi ht (safe_read hi ht (Refers.hasKind hg)) fun g' t₁ s₁ hi₁ ht₁ _ hg' => ?_
      obtain ⟨l, hg'⟩ := hg'
      exact ih hi₁ ht₁ hg'

theorem safe_toInvokable (n : ℕ) (hi : Inv w₀ s) (ht : Tables t s) (h : Refers s (.gate u)) :
    Safe w₀ ok i (fun g s => FitGate s (.direct g)) (Gate.toInvokable n u) t s := by
  refine .bind hi ht (safe_read hi ht h.hasKind) fun g t₁ s₁ hi₁ ht₁ _ hg => ?_
  obtain ⟨l, hg⟩ := hg
  exact safe_toInvokableLoop n hi₁ ht₁ hg

theorem safe_checkDelegate (hi : Inv w₀ s) (ht : Tables t s) (c : Component) :
    Safe w₀ ok i (fun _ _ => True) (checkDelegate c) t s := by
  refine .bind hi ht (safe_getPrivilege hi ht) fun p t₁ s₁ _ _ _ _ => ?_
  split_ifs
  · exact .pure fun _ _ => True.intro
  · exact .throwFs

theorem safe_replaceGate {g : Gate} (hi : Inv w₀ s) (ht : Tables t s) (h : Refers s (.gate u))
    (hg : FitGate s g) : Safe w₀ ok i (fun _ _ => True) (Gate.replace u g) t s := by
  refine .bind hi ht (safe_checkDelegate hi ht _) fun _ t₁ s₁ hi₁ ht₁ hs₁ _ => ?_
  exact (safe_overwrite hi₁ ht₁ (hs₁.refers _ h).hasKind (good_gate (hg.grow hs₁))).trivial

theorem safe_replaceService {v : Service} (hi : Inv w₀ s) (ht : Tables t s)
    (h : Refers s (.service u)) : Safe w₀ ok i (fun _ _ => True) (Service.replace u v) t s := by
  refine .bind hi ht (safe_checkDelegate hi ht _) fun _ t₁ s₁ hi₁ ht₁ hs₁ _ => ?_
  exact (safe_overwrite hi₁ ht₁ (hs₁.refers _ h).hasKind (good_service v)).trivial

theorem safe_writeFile {data : Bytes} (hi : Inv w₀ s) (ht : Tables t s) (h : Refers s (.file u)) :
    Safe w₀ ok i (fun _ _ => True) (File.write u data) t s :=
  (safe_overwrite hi ht h.hasKind (good_file data)).trivial

/-- A blob object that is given the name of a saved blob may be referred to. -/
theorem safe_replaceBlob {name : String} (hi : Inv w₀ s) (ht : Tables t s)
    (h : HasKind s.store u .dentBlob) (hn : Saved s.world.blobstore name) :
    Safe w₀ ok i (fun _ s => Refers s (.blob u)) (Blob.replace u name) t s :=
  (safe_overwrite hi ht h (good_blob hn)).mono fun _ _ _ h => h _ rfl rfl

end Gates

/-! ### New objects -/

section Create

variable [LabelCrate] {label : Buckle}

omit [LabelCrate] in
/-- A new object, given out as an entry of its kind. -/
theorem safe_createAs {T : Type} [Codec T] {k : DentKind} [Kinded T k] (n : ℕ) {v : T}
    {entry : Uid → DirEntry} (hi : Inv w₀ s) (ht : Tables t s) (hv : Fit s (Codec.encode v))
    (hk : k ≠ .dentBlob) (huid : ∀ u, (entry u).uid = u) (hkind : ∀ u, (entry u).kind = k) :
    Safe w₀ ok i (fun e s => Refers s e) (do return entry (← ObjectRef.setNewId n v)) t s := by
  refine .map entry (safe_setNewId n hi ht hv) fun u s' _ hu => refers_of_hasKind ?_ ?_
  · rwa [huid, hkind]
  · rwa [hkind]

omit [LabelCrate] in
theorem safe_createDirectory (n : ℕ) (hi : Inv w₀ s) (ht : Tables t s) :
    Safe w₀ ok i (fun e s => Refers s e) (FS.createDirectory n label) t s :=
  safe_createAs n hi ht (fit_emptyDirectory label) (by decide) (fun _ => rfl) fun _ => rfl

omit [LabelCrate] in
theorem safe_createFile (n : ℕ) (hi : Inv w₀ s) (ht : Tables t s) :
    Safe w₀ ok i (fun e s => Refers s e) (FS.createFile n label) t s :=
  safe_createAs n hi ht True.intro (by decide) (fun _ => rfl) fun _ => rfl

omit [LabelCrate] in
theorem safe_createFacetedDirectory (n : ℕ) (hi : Inv w₀ s) (ht : Tables t s) :
    Safe w₀ ok i (fun e s => Refers s e) (FS.createFacetedDirectory n) t s :=
  safe_createAs n hi ht (fun _ _ h => by cases h) (by decide) (fun _ => rfl) fun _ => rfl

/-- The empty blob object of a failed creation is referred to by nobody. -/
theorem safe_createBlob (n : ℕ) {name : String} (hi : Inv w₀ s) (ht : Tables t s)
    (hn : Saved s.world.blobstore name) :
    Safe w₀ ok i (fun e s => Refers s e) (FS.createBlob n label name) t s := by
  refine .bind hi ht (safe_setNewId n hi ht True.intro) fun u t₁ s₁ hi₁ ht₁ hs₁ hu => ?_
  exact .bind hi₁ ht₁ (safe_replaceBlob hi₁ ht₁ hu (hs₁.saved _ hn))
    fun _ _ s₂ _ _ _ h => .pure fun s' hs => hs.refers _ h

theorem safe_checkCreate (hi : Inv w₀ s) (ht : Tables t s) :
    Safe w₀ ok i (fun _ _ => True) (FS.checkCreate label) t s :=
  (safe_checkFlow hi ht label).trivial

theorem safe_createDirectGate (n : ℕ) {g : DirectGate} (hi : Inv w₀ s) (ht : Tables t s)
    (hg : FitGate s (.direct g)) :
    Safe w₀ ok i (fun e s => Refers s e) (FS.createDirectGate n label g) t s := by
  refine .bind hi ht (safe_checkCreate hi ht) fun _ t₁ s₁ hi₁ ht₁ hs₁ _ => ?_
  refine .bind hi₁ ht₁ (safe_checkDelegate hi₁ ht₁ _) fun _ t₂ s₂ hi₂ ht₂ hs₂ _ => ?_
  refine .bind hi₂ ht₂ (safe_checkDelegate hi₂ ht₂ _) fun _ t₃ s₃ hi₃ ht₃ hs₃ _ => ?_
  exact safe_createAs n hi₃ ht₃ (FitGate.grow (g := .direct g) hg ((hs₁.trans hs₂).trans hs₃)) (by decide)
    (fun _ => rfl) fun _ => rfl

theorem safe_createRedirectGate (n : ℕ) {g : RedirectGate} (hi : Inv w₀ s) (ht : Tables t s)
    (hg : Refers s (.gate g.gate)) :
    Safe w₀ ok i (fun e s => Refers s e) (FS.createRedirectGate n label g) t s := by
  refine .bind hi ht (safe_checkCreate hi ht) fun _ t₁ s₁ hi₁ ht₁ hs₁ _ => ?_
  refine .bind hi₁ ht₁ (safe_checkDelegate hi₁ ht₁ _) fun _ t₂ s₂ hi₂ ht₂ hs₂ _ => ?_
  refine .bind hi₂ ht₂ (safe_checkDelegate hi₂ ht₂ _) fun _ t₃ s₃ hi₃ ht₃ hs₃ _ => ?_
  exact safe_createAs n hi₃ ht₃ (((hs₁.trans hs₂).trans hs₃).refers _ hg) (by decide) (fun _ => rfl)
    fun _ => rfl

theorem safe_createService (n : ℕ) {v : Service} (hi : Inv w₀ s) (ht : Tables t s) :
    Safe w₀ ok i (fun e s => Refers s e) (FS.createService n label v) t s := by
  refine .bind hi ht (safe_checkCreate hi ht) fun _ t₁ s₁ hi₁ ht₁ _ _ => ?_
  refine .bind hi₁ ht₁ (safe_checkDelegate hi₁ ht₁ _) fun _ t₂ s₂ hi₂ ht₂ _ _ => ?_
  exact safe_createAs n hi₂ ht₂ True.intro (by decide) (fun _ => rfl) fun _ => rfl

end Create

/-! ### The blobstore -/

section Blobs

theorem safe_blobGet {name : String} (hn : Blobstore.splitsAtTwo name = true) :
    Safe w₀ ok i (fun r s' => (∀ c, r = some c → Saved s'.world.blobstore name) ∧
      (Saved s.world.blobstore name → r ≠ none)) (blobGet name) t s := by
  refine .call (fun _ _ _ _ _ => True.intro) fun s₁ s₂ hs₁ _ _ hs₂ _ => ⟨fun c hc => ?_, fun h => ?_⟩
  · have hfound : s₁.world.blobstore name = some c := hc
    exact hs₂.saved _ ⟨by simp [hfound], hn⟩
  · exact (hs₁.saved _ h).1

/-- What `open` returns is saved. It panics only if the host fails, or the blob was not saved. -/
theorem safe_openExpect {name : String} (hi : Inv w₀ s) (ht : Tables t s)
    (hok : ok → Files w₀ ∧ Saved s.world.blobstore name) :
    Safe w₀ ok i (fun b s => Saved s.world.blobstore b.name) (Blobstore.openExpect name) t s := by
  unfold Blobstore.openExpect
  split_ifs with hn
  · refine .bind hi ht safe_nextIo fun r t₁ s₁ hi₁ ht₁ hs₁ hr => ?_
    cases r with
    | error e =>
      refine .raise fun h => ?_
      obtain ⟨n, hn⟩ := hr (hok h).1
      cases hn
    | ok n =>
      refine .bind hi₁ ht₁ (safe_blobGet hn) fun r t₂ s₂ hi₂ ht₂ _ hr => ?_
      refine .bind hi₂ ht₂ (.unwrap' fun h => hr.2 (hs₁.saved _ (hok h).2))
        fun c t₃ s₃ _ _ hs₃ hc => .pure fun s' hs => (hs₃.trans hs).saved _ (hr.1 c hc)
  · exact .raise fun h => absurd (hok h).2.2 hn

variable (hdigest : ∀ bytes, Blobstore.splitsAtTwo (w₀.host.digestHex bytes) = true)

include hdigest in
theorem safe_save (b : NewBlob) (hi : Inv w₀ s) (ht : Tables t s) :
    Safe w₀ ok i (fun r s => (∀ x, r = .ok x → Saved s.world.blobstore x.name) ∧
      (Files w₀ → ∃ x, r = .ok x)) (Blobstore.save b) t s := by
  have failed : ∀ {t s} {e : Bytes}, (Files w₀ → ∃ n : ℕ, Except.error e = .ok (n + 1)) →
      Safe w₀ ok i (fun r s => (∀ x, r = .ok x → Saved s.world.blobstore x.name) ∧
        (Files w₀ → ∃ x, r = .ok x)) (pure (.error e) : M (Except Bytes OpenBlob)) t s :=
    fun he => .pure fun _ _ => ⟨nofun, fun h => by obtain ⟨n, hn⟩ := he h; cases hn⟩
  refine .bind hi ht safe_host fun h t₁ s₁ hi₁ ht₁ _ hh => ?_
  subst hh
  refine .bind hi₁ ht₁ safe_nextIo fun r t₂ s₂ hi₂ ht₂ _ hr => ?_
  rcases r with e | n
  · exact failed hr
  refine .bind (B := fun _ s => Saved s.world.blobstore (w₀.host.digestHex b.digest)) hi₂ ht₂
    (.call (fun _ _ _ _ _ => hdigest _) fun s₃ s₄ _ _ _ _ henv => ?_) fun _ t₃ s₃ hi₃ ht₃ _ hsaved => ?_
  · refine henv.saved _ ⟨?_, hdigest _⟩
    change Function.update s₃.world.blobstore _ (some b.file) _ ≠ none
    simp
  refine .bind hi₃ ht₃ safe_nextIo fun r t₄ s₄ hi₄ ht₄ hs₄ hr => ?_
  rcases r with e | n
  · exact failed hr
  refine .bind hi₄ ht₄ safe_nextIo fun r t₅ s₅ hi₅ ht₅ hs₅ hr => ?_
  rcases r with e | n
  · exact failed hr
  refine .pure fun s' hs => ⟨fun x hx => ?_, fun _ => ⟨_, rfl⟩⟩
  cases hx
  exact ((hs₄.trans hs₅).trans hs).saved _ hsaved

theorem safe_create (hi : Inv w₀ s) (ht : Tables t s) :
    Safe w₀ ok i (fun r _ => Files w₀ → ∃ b, r = .ok b) Blobstore.create t s := by
  refine .bind hi ht safe_nextIo fun r t₁ s₁ _ _ _ hr => ?_
  rcases r with e | n
  · exact .pure fun _ _ h => by obtain ⟨n, hn⟩ := hr h; cases hn
  · exact .pure fun _ _ _ => ⟨_, rfl⟩

theorem safe_writeBlob (b : NewBlob) (bytes : Bytes) (hi : Inv w₀ s) (ht : Tables t s) :
    Safe w₀ ok i (fun r _ => Files w₀ → ∃ n b', r = .ok ((bytes.take (n + 1)).length, b'))
      (b.write bytes) t s := by
  refine .bind hi ht safe_nextIo fun r t₁ s₁ _ _ _ hr => ?_
  rcases r with e | n
  · exact .pure fun _ _ h => by obtain ⟨n, hn⟩ := hr h; cases hn
  · refine .pure fun _ _ h => ?_
    obtain ⟨m, hm⟩ := hr h
    cases hm
    exact ⟨m, _, rfl⟩

/-- Every write of at least one byte makes progress. -/
theorem safe_writeAllLoop (hok : ok → Files w₀) (k : ℕ) {b : NewBlob} {bytes : Bytes}
    (hi : Inv w₀ s) (ht : Tables t s) (hk : bytes.length ≤ k) :
    Safe w₀ ok i (fun _ _ => True) (NewBlob.writeAllLoop k b bytes) t s := by
  induction k generalizing t s b bytes with
  | zero =>
    obtain rfl : bytes = [] := List.length_eq_zero_iff.1 (Nat.le_zero.1 hk)
    exact .pure fun _ _ => True.intro
  | succ k ih =>
    cases bytes with
    | nil => exact .pure fun _ _ => True.intro
    | cons x xs =>
      unfold NewBlob.writeAllLoop
      refine .bind hi ht (safe_writeBlob b (x :: xs) hi ht) fun r t₁ s₁ hi₁ ht₁ _ hr => ?_
      rcases r with e | ⟨n | n, b'⟩
      · refine .raise fun h => ?_
        obtain ⟨n, b', hn⟩ := hr (hok h)
        cases hn
      · refine .raise fun h => ?_
        obtain ⟨n, b', hn⟩ := hr (hok h)
        simp at hn
      · refine ih hi₁ ht₁ ?_
        simp only [List.length_drop, List.length_cons] at hk ⊢
        omega

include hdigest in
theorem safe_storeExpect (hok : ok → Files w₀) (content : Bytes) (hi : Inv w₀ s)
    (ht : Tables t s) :
    Safe w₀ ok i (fun b s => Saved s.world.blobstore b.name) (Blobstore.storeExpect content) t s := by
  refine .bind hi ht (safe_create hi ht) fun r t₁ s₁ hi₁ ht₁ _ hr => ?_
  rcases r with e | b
  · refine .raise fun h => ?_
    obtain ⟨b, hb⟩ := hr (hok h)
    cases hb
  refine .bind hi₁ ht₁ (safe_writeAllLoop hok _ hi₁ ht₁ le_rfl) fun b t₂ s₂ hi₂ ht₂ _ _ => ?_
  refine .bind hi₂ ht₂ (safe_save hdigest b hi₂ ht₂) fun r t₃ s₃ _ _ _ hr => ?_
  rcases r with e | b
  · refine .raise fun h => ?_
    obtain ⟨b, hb⟩ := hr.2 (hok h)
    cases hb
  · exact .pure fun s' hs => hs.saved _ (hr.1 b rfl)

theorem safe_lenExpect (hok : ok → Files w₀) (b : OpenBlob) (hi : Inv w₀ s) (ht : Tables t s) :
    Safe w₀ ok i (fun _ _ => True) b.lenExpect t s := by
  refine .bind hi ht safe_nextIo fun r t₁ s₁ _ _ _ hr => ?_
  rcases r with e | n
  · refine .raise fun h => ?_
    obtain ⟨n, hn⟩ := hr (hok h)
    cases hn
  · exact .pure fun _ _ => True.intro

theorem safe_readAt (b : OpenBlob) (offset length : ℕ) (hi : Inv w₀ s) (ht : Tables t s) :
    Safe w₀ ok i (fun _ _ => True) (b.readAt offset length) t s := by
  refine .bind hi ht safe_nextIo fun r t₁ s₁ _ _ _ _ => ?_
  rcases r with e | n
  · exact .pure fun _ _ => True.intro
  · exact .pure fun _ _ => True.intro

end Blobs

end Integrity

end Faasten
