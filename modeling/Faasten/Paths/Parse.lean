import Mathlib
import Faasten.DcLabels
import Faasten.Gateway

/-!
# Parsing paths

`Path::parse` trims colons, splits at the others, and reads each piece by itself; only the first piece
may be the shorthand `~` for the home directory of the thread. `parsed` says what it gives without the
monad, and `parse_compositional` that the parts of a path can be parsed one by one.
-/

namespace Faasten

open Std

namespace Path

/-! ### Strings between colons -/

/-- The string is not empty, and does not start or end with a colon. -/
structure Inner (s : List Char) : Prop where
  ne_nil : s ≠ []
  head : s.head? ≠ some ':'
  last : s.getLast? ≠ some ':'

theorem dropWhile_replicate (n : ℕ) (s : List Char) :
    (List.replicate n ':' ++ s).dropWhile (· = ':') = s.dropWhile (· = ':') := by
  induction n with
  | zero => rfl
  | succ n ih => simp [List.replicate_succ, ih]

theorem dropWhile_append_replicate (n : ℕ) {s : List Char} (h : s.dropWhile (· = ':') ≠ []) :
    (s ++ List.replicate n ':').dropWhile (· = ':') = s.dropWhile (· = ':') ++ List.replicate n ':' := by
  induction s with
  | nil => exact absurd rfl h
  | cons c s ih =>
    by_cases hc : c = ':'
    · simp only [List.cons_append, hc, List.dropWhile_cons, decide_true, if_true] at h ⊢
      exact ih h
    · simp [hc]

/-- Colons at the ends of a string are trimmed. -/
theorem trim_colons (n k : ℕ) (s : List Char) :
    trim (List.replicate n ':' ++ s ++ List.replicate k ':') = trim s := by
  unfold trim
  rw [List.append_assoc, dropWhile_replicate]
  by_cases h : s.dropWhile (· = ':') = []
  · have hs : ∃ j, s = List.replicate j ':' := ⟨s.length, List.eq_replicate_iff.2 ⟨rfl, fun c hc => by
      simpa using List.dropWhile_eq_nil_iff.1 h c hc⟩⟩
    obtain ⟨j, rfl⟩ := hs
    rw [dropWhile_replicate, h]
    have hk := dropWhile_replicate k []
    rw [List.append_nil] at hk
    rw [hk]
    rfl
  · rw [dropWhile_append_replicate k h, List.reverse_append, List.reverse_replicate,
      dropWhile_replicate]

theorem Inner.trim {s : List Char} (h : Inner s) : Path.trim s = s := by
  have keep : ∀ {s : List Char}, s.head? ≠ some ':' → s.dropWhile (· = ':') = s := by
    intro s hs
    cases s with
    | nil => rfl
    | cons c s =>
      have hc : c ≠ ':' := fun hc => hs (congrArg some hc)
      simp [hc]
  unfold Path.trim
  rw [keep h.head, keep (by rw [List.head?_reverse]; exact h.last), List.reverse_reverse]

theorem Inner.append {s t : List Char} (hs : Inner s) (ht : Inner t) : Inner (s ++ ':' :: t) where
  ne_nil := by simp
  head := by
    rw [List.head?_append_of_ne_nil _ hs.ne_nil]
    exact hs.head
  last := by
    rw [List.getLast?_append_cons, List.getLast?_cons_of_ne_nil ht.ne_nil]
    exact ht.last

/-- The first piece of such a string is not empty. -/
theorem Inner.split {s : List Char} (h : Inner s) :
    ∃ a c cs, s.splitOn ':' = (a :: c) :: cs := by
  cases s with
  | nil => exact absurd rfl h.ne_nil
  | cons a s =>
    have ha : a ≠ ':' := fun ha => h.head (congrArg some ha)
    obtain ⟨c, cs, hsplit⟩ := List.exists_cons_of_ne_nil (List.splitOn_ne_nil ':' s)
    exact ⟨a, c, cs, by simp [List.splitOn_cons_eq_if_modifyHead, ha, hsplit]⟩

variable [LabelCrate]

/-! ### Parsing without effects -/

/-- What a piece stands for, with `label` as the current label. -/
def pieceOf (label : Buckle) (c : List Char) : Option PathComponent :=
  if c = ['%'] then some (.facet label)
  else
    match labelText c with
    | some lbl => (LabelCrate.parse (String.ofList lbl)).map .facet
    | none => some (.dscrp (String.ofList c))

/-- What the pieces of a path stand for, the first of them maybe `~`. -/
def piecesOf (w : World) : List (List Char) → Option Path
  | [] => some []
  | c :: cs =>
      if c = ['~'] then do
        let path ← cs.mapM (pieceOf w.currentLabel)
        return .dscrp "home" :: .facet ⟨w.privilege, w.privilege⟩ :: path
      else (c :: cs).mapM (pieceOf w.currentLabel)

/-- What a string is parsed to by a thread. -/
def parsed (w : World) (input : List Char) : Option Path :=
  match (trim input).splitOn ':' with
  | [] => some []
  | [] :: _ => some []
  | cs => piecesOf w cs

theorem exec_parseComponent (c : List Char) (w : World) :
    exec (parseComponent c) w = (.ok (pieceOf w.currentLabel c), w) := by
  unfold parseComponent pieceOf
  split_ifs
  · rw [exec_bind_ok (exec_getCurrentLabel w)]
    rfl
  · cases labelText c <;> rfl

theorem exec_parseComponents (cs : List (List Char)) (w : World) :
    exec (parseComponents cs) w = (.ok (cs.mapM (pieceOf w.currentLabel)), w) := by
  induction cs with
  | nil => rfl
  | cons c cs ih =>
    unfold parseComponents
    rw [exec_bind_ok (exec_parseComponent c w), List.mapM_cons]
    cases pieceOf w.currentLabel c with
    | none => rfl
    | some comp =>
      simp only
      rw [exec_bind_ok ih]
      cases cs.mapM (pieceOf w.currentLabel) <;> rfl

theorem piecesOf_of_ne {w : World} {cs : List (List Char)} (h : cs.head? ≠ some ['~']) :
    piecesOf w cs = cs.mapM (pieceOf w.currentLabel) := by
  cases cs with
  | nil => rfl
  | cons c cs => exact if_neg fun hc => h (congrArg some hc)

/-- Parsing reads the label and the privilege of the thread, and changes nothing. -/
theorem exec_parse (input : String) (w : World) :
    exec (parse input) w = (.ok (parsed w input.toList), w) := by
  unfold parse parsed
  generalize (trim input.toList).splitOn ':' = cs
  split
  · rfl
  · rfl
  · rename_i cs
    rw [exec_bind_ok (exec_getUfacet w), exec_bind_ok (exec_parseComponents cs w)]
    simp only [piecesOf, if_true]
    cases cs.mapM (pieceOf w.currentLabel) <;> rfl
  · rename_i hnil hempty hhome
    have hhead : cs.head? ≠ some ['~'] := fun h => by
      obtain ⟨cs, rfl⟩ : ∃ cs', cs = ['~'] :: cs' := by
        cases cs with
        | nil => cases h
        | cons c cs => cases h; exact ⟨cs, rfl⟩
      exact hhome _ rfl
    rw [exec_parseComponents, ← piecesOf_of_ne hhead]
    split
    · exact absurd rfl hnil
    · exact absurd rfl (hempty _)
    · rfl

/-! ### Joined strings -/

theorem Inner.parsed_eq {s : List Char} (h : Inner s) (w : World) :
    parsed w s = piecesOf w (s.splitOn ':') := by
  obtain ⟨a, c, cs, hsplit⟩ := h.split
  unfold parsed
  rw [h.trim, hsplit]

theorem piecesOf_append {w : World} {c : List Char} {cs ds : List (List Char)}
    (h : ds.head? ≠ some ['~']) :
    piecesOf w (c :: cs ++ ds) = do
      let p ← piecesOf w (c :: cs)
      let q ← piecesOf w ds
      return p ++ q := by
  rw [piecesOf_of_ne h, List.cons_append]
  simp only [piecesOf]
  split_ifs
  · rw [List.mapM_append]
    cases cs.mapM (pieceOf w.currentLabel) with
    | none => rfl
    | some p => cases ds.mapM (pieceOf w.currentLabel) <;> rfl
  · rw [← List.cons_append, List.mapM_append]

/-- The parts of a string on the two sides of a colon are parsed one by one. -/
theorem parsed_append {w : World} {s t : List Char} (hs : Inner s) (ht : Inner t)
    (htilde : (t.splitOn ':').head? ≠ some ['~']) :
    parsed w (s ++ ':' :: t) = do
      let p ← parsed w s
      let q ← parsed w t
      return p ++ q := by
  rw [(hs.append ht).parsed_eq, hs.parsed_eq, ht.parsed_eq, List.splitOn_append_cons_self]
  obtain ⟨a, c, cs, hsplit⟩ := hs.split
  rw [hsplit, piecesOf_append htilde]

theorem parsed_colons (w : World) (n k : ℕ) (s : List Char) :
    parsed w (List.replicate n ':' ++ s ++ List.replicate k ':') = parsed w s := by
  unfold parsed
  rw [trim_colons]

end Path

variable [LabelCrate]

/-- **Parsing paths is compositional.** Two strings that are joined by a colon are parsed to the components
of the first followed by those of the second, if both can be parsed, and otherwise not at all; the
second must not start with the shorthand `~`, which means something at the start of a path only. Colons at
the ends of a string change nothing, and a string of colons is the root. -/
theorem parse_compositional (w : World) :
    (∀ s t : String, Path.Inner s.toList → Path.Inner t.toList →
      (t.toList.splitOn ':').head? ≠ some ['~'] →
      ∃ ps pt, exec (Path.parse s) w = (.ok ps, w) ∧ exec (Path.parse t) w = (.ok pt, w) ∧
        exec (Path.parse (s ++ ":" ++ t)) w =
          (.ok (do return (← ps) ++ (← pt)), w)) ∧
    (∀ (s : String) (n k : ℕ),
      exec (Path.parse (String.ofList (List.replicate n ':') ++ s ++ String.ofList (List.replicate k ':')))
        w = exec (Path.parse s) w) ∧
    ∀ n : ℕ, exec (Path.parse (String.ofList (List.replicate n ':'))) w = (.ok (some []), w) := by
  refine ⟨fun s t hs ht htilde => ?_, fun s n k => ?_, fun n => ?_⟩
  · refine ⟨_, _, Path.exec_parse s w, Path.exec_parse t w, ?_⟩
    rw [Path.exec_parse, ← Path.parsed_append hs ht htilde]
    simp
  · rw [Path.exec_parse, Path.exec_parse]
    simp only [String.toList_append, String.toList_ofList]
    rw [Path.parsed_colons]
  · have hroot := Path.parsed_colons w n 0 []
    simp only [List.append_nil, List.replicate_zero] at hroot
    rw [Path.exec_parse, String.toList_ofList, hroot]
    rfl

end Faasten

/-! ### A path below the home directory -/

namespace Faasten.BelowHome

open scoped Dc

/-- A thread of alice. -/
def world : World := .quiet { Thread.idle publicLabel with privilege := .single ["alice"] } .empty

/-- The path of her directory `docs` at her current label is parsed in two parts. -/
theorem parts_joined :
    (exec (Path.parse ("~:docs" ++ ":" ++ "%:a")) world).1 =
      .ok (some [.dscrp "home", .facet ⟨.single ["alice"], .single ["alice"]⟩, .dscrp "docs",
        .facet publicLabel, .dscrp "a"]) := by
  obtain ⟨ps, pt, hs, ht, hst⟩ := (parse_compositional world).1 "~:docs" "%:a"
    ⟨by decide, by decide, by decide⟩ ⟨by decide, by decide, by decide⟩ (by decide)
  rw [Path.exec_parse] at hs ht
  rw [hst]
  cases hs
  cases ht
  decide +kernel

end Faasten.BelowHome
