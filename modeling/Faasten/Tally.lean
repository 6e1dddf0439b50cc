import Mathlib

/-!
# Tallies

A tally is a list of keys with a count each, used as a small map whose order matters: the first key
that fits is taken. It is tidy when no key is listed twice and no count is zero; the operations keep
it so, and what they do to the count of each key describes them completely.

* `Tally.record` sets the count of a key, in place if the key is listed and at the end otherwise;
* `Tally.useFirst` takes one from the first key that a (possibly failing) test accepts;
* `Tally.discard` removes a key by putting the last one in its place.
-/

/-- Keys with their counts. -/
abbrev Tally (α : Type*) := List (α × ℕ)

namespace Tally

variable {α : Type*} [DecidableEq α] {t : Tally α} {a b : α} {k : ℕ}

/-- The count of a key. -/
def count : Tally α → α → ℕ
  | [], _ => 0
  | e :: t, a => if e.1 = a then e.2 else count t a

/-- The keys that are listed. -/
def keys (t : Tally α) : List α := t.map Prod.fst

/-- No key is listed twice, and none without a count. -/
structure Tidy (t : Tally α) : Prop where
  nodup : (keys t).Nodup
  pos : ∀ e ∈ t, 0 < e.2

@[simp] theorem count_nil (a : α) : count [] a = 0 := rfl

@[simp] theorem count_cons (e : α × ℕ) (t : Tally α) (a : α) :
    count (e :: t) a = if e.1 = a then e.2 else count t a := rfl

omit [DecidableEq α] in
@[simp] theorem keys_cons (e : α × ℕ) (t : Tally α) : keys (e :: t) = e.1 :: keys t := rfl

omit [DecidableEq α] in
theorem Tidy.tail {e : α × ℕ} (h : Tidy (e :: t)) : Tidy t :=
  ⟨h.nodup.of_cons, fun x hx => h.pos x (List.mem_cons_of_mem _ hx)⟩

theorem count_eq_zero (h : a ∉ keys t) : count t a = 0 := by
  induction t with
  | nil => rfl
  | cons e t ih =>
    rw [keys_cons, List.mem_cons, not_or] at h
    rw [count_cons, if_neg (Ne.symm h.1), ih h.2]

theorem count_of_mem (hnodup : (keys t).Nodup) (h : (a, k) ∈ t) : count t a = k := by
  induction t with
  | nil => cases h
  | cons e t ih =>
    rw [keys_cons, List.nodup_cons] at hnodup
    rcases List.mem_cons.1 h with rfl | h
    · simp
    · have hne : e.1 ≠ a := fun he => hnodup.1 (he ▸ List.mem_map_of_mem (f := Prod.fst) h)
      rw [count_cons, if_neg hne, ih hnodup.2 h]

/-- A key of a tidy tally is listed exactly when it has a count. -/
theorem Tidy.mem_keys (h : Tidy t) : a ∈ keys t ↔ 0 < count t a := by
  constructor
  · intro ha
    obtain ⟨⟨a', k⟩, he, rfl⟩ := List.mem_map.1 ha
    rw [count_of_mem h.nodup he]
    exact h.pos _ he
  · intro hpos
    by_contra ha
    rw [count_eq_zero ha] at hpos
    omega

/-- Filtering by a test on the entries keeps the count of those that pass. -/
theorem count_filter (hnodup : (keys t).Nodup) (p : α × ℕ → Bool) (a : α) :
    count (t.filter p) a = if p (a, count t a) then count t a else 0 := by
  induction t with
  | nil => exact (ite_self _).symm
  | cons e t ih =>
    rw [keys_cons, List.nodup_cons] at hnodup
    have ht := ih hnodup.2
    obtain ⟨b, k⟩ := e
    by_cases hb : b = a
    · subst hb
      have hout : count t b = 0 := count_eq_zero hnodup.1
      rw [hout] at ht
      by_cases hp : p (b, k) = true
      · simp [hp]
      · simp [hp, ht]
    · by_cases hp : p (b, k) = true
      · simp [hp, hb, ht]
      · simp [hp, hb, ht]

omit [DecidableEq α] in
theorem keys_filter_sublist (p : α × ℕ → Bool) : (keys (t.filter p)).Sublist (keys t) :=
  List.filter_sublist.map _

/-! ### Setting a count -/

/-- Set the count of a key, or append the key. -/
def put (a : α) (k : ℕ) : Tally α → Tally α
  | [] => [(a, k)]
  | e :: t => if e.1 = a then (a, k) :: t else e :: put a k t

/-- Set the count of a key and drop the keys that have none. -/
def record (a : α) (k : ℕ) (t : Tally α) : Tally α := (put a k t).filter (0 < ·.2)

theorem count_put (a : α) (k : ℕ) (t : Tally α) (b : α) :
    count (put a k t) b = if b = a then k else count t b := by
  induction t with
  | nil => simp [put, eq_comm]
  | cons e t ih =>
    unfold put
    by_cases he : e.1 = a
    · rw [if_pos he, count_cons, count_cons]
      by_cases hb : b = a
      · simp [hb]
      · simp [hb, Ne.symm hb, he]
    · rw [if_neg he, count_cons, count_cons, ih]
      by_cases hb : b = a
      · subst hb; simp [he]
      · simp [hb]

theorem mem_keys_put (a : α) (k : ℕ) (t : Tally α) : b ∈ keys (put a k t) ↔ b = a ∨ b ∈ keys t := by
  induction t with
  | nil => simp [put, keys]
  | cons e t ih =>
    unfold put
    by_cases he : e.1 = a
    · simp [he]
    · simp only [if_neg he, keys_cons, List.mem_cons, ih]
      tauto

theorem nodup_put (hnodup : (keys t).Nodup) : (keys (put a k t)).Nodup := by
  induction t with
  | nil => simp [put, keys]
  | cons e t ih =>
    rw [keys_cons, List.nodup_cons] at hnodup
    unfold put
    by_cases he : e.1 = a
    · rw [if_pos he, keys_cons, List.nodup_cons]
      exact ⟨he ▸ hnodup.1, hnodup.2⟩
    · rw [if_neg he, keys_cons, List.nodup_cons, mem_keys_put, not_or]
      exact ⟨⟨he, hnodup.1⟩, ih hnodup.2⟩

theorem Tidy.record (h : Tidy t) (a : α) (k : ℕ) : Tidy (record a k t) :=
  ⟨(keys_filter_sublist _).nodup (nodup_put h.nodup), fun e he => by
    simpa using List.of_mem_filter he⟩

theorem count_record (h : Tidy t) (a : α) (k : ℕ) (b : α) :
    count (record a k t) b = if b = a then k else count t b := by
  rw [Tally.record, count_filter (nodup_put h.nodup), count_put]
  simp only [decide_eq_true_eq]
  split_ifs <;> omega

theorem mem_of_mem_record {e : α × ℕ} (he : e ∈ record a k t) : e.1 = a ∨ e.1 ∈ keys t :=
  (mem_keys_put a k t).1 (List.mem_map_of_mem (List.mem_of_mem_filter he))

omit [DecidableEq α] in
/-- A tidy tally has nothing to drop. -/
theorem Tidy.filter_pos (h : Tidy t) : t.filter (0 < ·.2) = t :=
  List.filter_eq_self.2 fun e he => by simpa using h.pos e he

/-- Setting the same count again changes nothing. -/
theorem record_record (h : Tidy t) (a : α) (k : ℕ) :
    record a k (record a k t) = record a k t := by
  have hput : ∀ t : Tally α, Tidy t → 0 < k → put a k (put a k t) = put a k t := by
    intro t ht hk
    induction t with
    | nil => simp [put]
    | cons e t ih =>
      unfold put
      by_cases he : e.1 = a
      · simp [he, put]
      · simp [he, put, ih ht.tail]
  rcases Nat.eq_zero_or_pos k with rfl | hk
  · -- The key is gone, so it is appended with no count, and dropped again.
    have hout : ∀ t : Tally α, a ∉ keys t → put a 0 t = t ++ [(a, 0)] := by
      intro t
      induction t with
      | nil => exact fun _ => rfl
      | cons e t ih =>
        intro ha
        rw [keys_cons, List.mem_cons, not_or] at ha
        simp [put, Ne.symm ha.1, ih ha.2]
    have ha : a ∉ keys (record a 0 t) := by
      rw [(h.record a 0).mem_keys, count_record h]
      simp
    rw [show record a 0 (record a 0 t) = (put a 0 (record a 0 t)).filter (0 < ·.2) from rfl,
      hout _ ha, List.filter_append, (h.record a 0).filter_pos]
    simp
  · have htidy : Tidy (put a k t) := by
      refine ⟨nodup_put h.nodup, fun e he => ?_⟩
      obtain ⟨b, m⟩ := e
      have hm := count_of_mem (nodup_put h.nodup) he
      rw [count_put] at hm
      by_cases hb : b = a
      · rw [if_pos hb] at hm
        omega
      · rw [if_neg hb] at hm
        have hb' : b ∈ keys (put a k t) := List.mem_map_of_mem (f := Prod.fst) he
        rw [mem_keys_put] at hb'
        have := h.mem_keys.1 (hb'.resolve_left hb)
        show 0 < m
        omega
    unfold Tally.record
    rw [htidy.filter_pos, hput t h hk, htidy.filter_pos]

/-! ### Taking one from the first key that fits -/

/-- Take one from the first key that passes the test; `none` if the test fails to give an answer, or
there is nothing to take. -/
def useFirst (safe : α → Option Bool) : Tally α → Option (Option α × Tally α)
  | [] => some (none, [])
  | e :: t =>
      match safe e.1 with
      | none => none
      | some true => if e.2 = 0 then none else some (some e.1, (e.1, e.2 - 1) :: t)
      | some false => (useFirst safe t).map fun (a, t) => (a, e :: t)

omit [DecidableEq α] in
/-- In a tidy tally where the test answers for all keys, there is something to take. -/
theorem exists_useFirst (safe : α → Option Bool) (h : Tidy t)
    (hsafe : ∀ a ∈ keys t, (safe a).isSome) : ∃ r, useFirst safe t = some r := by
  induction t with
  | nil => exact ⟨_, rfl⟩
  | cons e t ih =>
    unfold useFirst
    have he := hsafe e.1 (by simp)
    rcases hs : safe e.1 with _ | b
    · simp [hs] at he
    · cases b with
      | false =>
        obtain ⟨r, hr⟩ := ih h.tail fun a ha => hsafe a (by simp [ha])
        simp [hr]
      | true =>
        have := h.pos e (by simp)
        simp [show e.2 ≠ 0 by omega]

theorem useFirst_spec {safe : α → Option Bool} {u : Option α} {t' : Tally α}
    (hnodup : (keys t).Nodup) (h : useFirst safe t = some (u, t')) :
    keys t' = keys t ∧ (∀ a ∈ u, a ∈ keys t ∧ safe a = some true) ∧
      ∀ b, count t' b = if u = some b then count t b - 1 else count t b := by
  induction t generalizing u t' with
  | nil =>
    obtain ⟨rfl, rfl⟩ := Prod.mk.inj (Option.some.inj h)
    simp
  | cons e t ih =>
    rw [keys_cons, List.nodup_cons] at hnodup
    unfold useFirst at h
    rcases hs : safe e.1 with _ | b
    · simp [hs] at h
    · rw [hs] at h
      cases b with
      | true =>
        by_cases hz : e.2 = 0
        · simp [hz] at h
        · simp only [hz, if_false, Option.some.injEq, Prod.mk.injEq] at h
          obtain ⟨rfl, rfl⟩ := h
          refine ⟨rfl, by simp [hs], fun b => ?_⟩
          by_cases hb : e.1 = b
          · simp [hb]
          · simp [hb]
      | false =>
        simp only [Option.map_eq_some_iff, Prod.exists, Prod.mk.injEq] at h
        obtain ⟨u', t'', hrec, rfl, rfl⟩ := h
        obtain ⟨hkeys, hu, hcount⟩ := ih hnodup.2 hrec
        refine ⟨by simp [hkeys], fun a ha => ?_, fun b => ?_⟩
        · exact ⟨List.mem_cons_of_mem _ (hu a ha).1, (hu a ha).2⟩
        · by_cases hb : e.1 = b
          · have : u' ≠ some b := fun hu' => hnodup.1 (hb ▸ (hu b hu').1)
            simp [hb, this]
          · simp [hb, hcount]

omit [DecidableEq α] in
/-- The key that is taken from is the first one that passes the test; without one nothing changes. -/
theorem useFirst_eq_find {safe : α → Option Bool} {u : Option α} {t' : Tally α}
    (h : useFirst safe t = some (u, t')) :
    u = (keys t).find? (fun a => safe a == some true) ∧ (u = none → t' = t) := by
  induction t generalizing u t' with
  | nil =>
    obtain ⟨rfl, rfl⟩ := Prod.mk.inj (Option.some.inj h)
    exact ⟨rfl, fun _ => rfl⟩
  | cons e t ih =>
    unfold useFirst at h
    rcases hs : safe e.1 with _ | b
    · simp [hs] at h
    · rw [hs] at h
      cases b with
      | true =>
        by_cases hz : e.2 = 0
        · simp [hz] at h
        · simp only [hz, if_false, Option.some.injEq, Prod.mk.injEq] at h
          obtain ⟨rfl, rfl⟩ := h
          simp [hs]
      | false =>
        simp only [Option.map_eq_some_iff, Prod.exists, Prod.mk.injEq] at h
        obtain ⟨u', t'', hrec, rfl, rfl⟩ := h
        obtain ⟨hfind, hsame⟩ := ih hrec
        refine ⟨by simp [hs, hfind], fun hu => ?_⟩
        rw [hsame hu]

/-! ### Removing a key -/

/-- `Vec::swap_remove`: the last element takes the place of the removed one. -/
def swapRemove (t : Tally α) (i : ℕ) : Tally α :=
  match t.getLast? with
  | some e => (t.set i e).dropLast
  | none => []

/-- Remove the first entry of a key, and then all without a count. -/
def discard (a : α) (t : Tally α) : Tally α :=
  match t.findIdx? (·.1 = a) with
  | some i => (swapRemove t i).filter (·.2 ≠ 0)
  | none => t

omit [DecidableEq α] in
theorem swapRemove_perm {i : ℕ} (hi : i < t.length) : t.Perm (t[i] :: swapRemove t i) := by
  have hne : t ≠ [] := List.ne_nil_of_length_pos (by omega)
  obtain ⟨s, e, rfl⟩ := (List.eq_nil_or_concat t).resolve_left hne
  simp only [List.concat_eq_append, List.length_append, List.length_singleton] at hi ⊢
  simp only [swapRemove, List.getLast?_append, List.getLast?_singleton, Option.some_or]
  rcases Nat.lt_succ_iff_lt_or_eq.1 hi with hlt | rfl
  · rw [List.set_append_left _ _ hlt, List.dropLast_concat, List.getElem_append_left hlt,
      List.set_eq_take_append_cons_drop, if_pos hlt]
    have hs : s.Perm (s[i] :: (s.take i ++ s.drop (i + 1))) := by
      conv_lhs => rw [← List.take_append_drop i s, List.drop_eq_getElem_cons hlt]
      exact List.perm_middle
    calc List.Perm (s ++ [e]) (e :: s) := List.perm_append_singleton e s
      List.Perm _ (e :: s[i] :: (s.take i ++ s.drop (i + 1))) := hs.cons e
      List.Perm _ (s[i] :: e :: (s.take i ++ s.drop (i + 1))) := .swap _ _ _
      List.Perm _ (s[i] :: (s.take i ++ e :: s.drop (i + 1))) := List.perm_middle.symm.cons _
  · have hset : (s ++ [e]).set s.length e = s ++ [e] := by simp
    rw [hset, List.dropLast_concat, List.getElem_concat_length rfl]
    exact List.perm_append_singleton e s

/-- Removing a key of a tidy tally leaves the entries of all others. -/
theorem discard_perm (h : Tidy t) (a : α) : (discard a t).Perm (t.filter (·.1 ≠ a)) := by
  unfold discard
  rcases hfind : t.findIdx? (·.1 = a) with _ | i
  · have hout : ∀ e ∈ t, e.1 ≠ a := by simpa using hfind
    rw [List.filter_eq_self.2 fun e he => by simpa using hout e he, hfind]
  · obtain ⟨hi, ha, -⟩ := List.findIdx?_eq_some_iff_getElem.1 hfind
    have hperm := swapRemove_perm hi
    have hpos : ∀ e ∈ swapRemove t i, e.2 ≠ 0 := fun e he =>
      (h.pos e (hperm.symm.subset (List.mem_cons_of_mem _ he))).ne'
    have hother : ∀ e ∈ swapRemove t i, e.1 ≠ a := by
      intro e he hea
      have hnodup : (keys (t[i] :: swapRemove t i)).Nodup := (hperm.map _).nodup h.nodup
      rw [keys_cons, List.nodup_cons] at hnodup
      refine hnodup.1 ?_
      rw [of_decide_eq_true ha, ← hea]
      exact List.mem_map_of_mem he
    have hkept : (t.filter (·.1 ≠ a)).Perm (swapRemove t i) := by
      refine (hperm.filter _).trans ?_
      rw [List.filter_cons_of_neg (by simpa using ha),
        List.filter_eq_self.2 fun e he => by simpa using hother e he]
    have hall : (swapRemove t i).filter (·.2 ≠ 0) = swapRemove t i :=
      List.filter_eq_self.2 fun e he => by simpa using hpos e he
    simp only [hfind, hall]
    exact hkept.symm

omit [DecidableEq α] in
theorem Tidy.of_perm {t' : Tally α} (h : Tidy t) (hperm : t'.Perm t) : Tidy t' :=
  ⟨(hperm.map _).nodup_iff.2 h.nodup, fun e he => h.pos e (hperm.subset he)⟩

omit [DecidableEq α] in
theorem Tidy.filter (h : Tidy t) (p : α × ℕ → Bool) : Tidy (t.filter p) :=
  ⟨(keys_filter_sublist p).nodup h.nodup, fun e he => h.pos e (List.mem_of_mem_filter he)⟩

theorem Tidy.discard (h : Tidy t) (a : α) : Tidy (discard a t) :=
  (h.filter _).of_perm (discard_perm h a)

/-- The order of a tidy tally does not matter for the counts. -/
theorem Tidy.count_eq_of_perm {t' : Tally α} (h : Tidy t) (hperm : t'.Perm t) (b : α) :
    count t' b = count t b := by
  by_cases hb : b ∈ keys t
  · obtain ⟨⟨b', k⟩, he, rfl⟩ := List.mem_map.1 hb
    rw [count_of_mem h.nodup he, count_of_mem (h.of_perm hperm).nodup (hperm.symm.subset he)]
  · rw [count_eq_zero hb, count_eq_zero fun hb' => hb ((hperm.map _).subset hb')]

theorem count_discard (h : Tidy t) (a b : α) :
    count (discard a t) b = if b = a then 0 else count t b := by
  rw [(h.filter _).count_eq_of_perm (discard_perm h a), count_filter h.nodup]
  by_cases hb : b = a <;> simp [hb]

theorem mem_of_mem_discard (h : Tidy t) {e : α × ℕ} (he : e ∈ discard a t) : e ∈ t ∧ e.1 ≠ a := by
  have := (discard_perm h a).subset he
  simpa using this

end Tally
