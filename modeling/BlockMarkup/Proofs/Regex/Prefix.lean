import Mathlib.Data.List.Infix
import BlockMarkup.Proofs.Regex.Demand

/-! # What stands before a text

A pattern that no match of which can begin in some characters leaves them alone, whatever stands behind
them (`prefix_replaceAll`); whether that is so can be computed (`shuns`). And a pattern that looks at
nothing but what it consumes does behind other characters what it does at the start
(`replaceAll_append`).
-/

namespace BlockMarkup.Regex

open Cursor (spot)

variable {r : Regex} {s u : Cursor} {p t before after rest out : List Char} {f : Match → List Char}

/-! ## Characters that begin no match -/

/-- Whether a match may begin with the given characters; parts behind a part of unknown length are not
looked into. -/
def mayBegin : Regex → List Char → Bool
  | .one set, c :: _ => set.contains c
  | .span set least _ _, c :: _ => least == 0 || set.contains c
  | .seq (.one set) b, c :: p => set.contains c && mayBegin b p
  | .seq a _, p => mayBegin a p
  | .alt a b, p => mayBegin a p || mayBegin b p
  | .group _ a, p | .atomic a, p => mayBegin a p
  | _, _ => true

theorem refuses_of_mayBegin (h : mayBegin r p = false) (hs : s.after = p ++ rest) :
    Refuses (run r) s := by
  fun_induction mayBegin r p generalizing s with
  | case1 set c p =>
    refine refuses_one fun d hd => ?_
    rw [hs] at hd
    cases hd
    exact h
  | case2 set least most greed c p =>
    rw [Bool.or_eq_false_iff, beq_eq_false_iff_ne] at h
    refine refuses_of_yields (yields_span_least set least most greed) ?_
    rintro u ⟨cs, hafter, hle, hset⟩
    obtain ⟨d, cs, rfl⟩ := List.exists_cons_of_length_pos (by omega : 0 < cs.length)
    rw [hs] at hafter
    obtain ⟨rfl, -⟩ := List.cons.inj hafter
    have hd := hset c List.mem_cons_self
    rw [h.2] at hd
    cases hd
  | case3 set b c p ih =>
    refine refuses_seq_of_yields (yields_one set) ?_
    rintro u ⟨d, hd, hafter, -⟩
    rw [hs] at hafter
    obtain ⟨rfl, hrest⟩ := List.cons.inj hafter
    rw [hd, Bool.true_and] at h
    exact ih h hrest.symm
  | case4 p a b hnot ih => exact (ih h hs).seq
  | case5 p a b iha ihb =>
    rw [Bool.or_eq_false_iff] at h
    exact (iha h.1 hs).alt (ihb h.2 hs)
  | case6 p i a ih => exact (ih h hs).group
  | case7 p a ih =>
    intro k
    rw [run_atomic, ih h hs some]
    rfl
  | case8 => cases h

/-- Whether no match can begin in the characters, nor be empty. -/
def shuns (r : Regex) (p : List Char) : Bool :=
  decide (0 < r.shortest) && p.tails.all fun t => t.isEmpty || !mayBegin r t

theorem silent_of_shuns (h : shuns r p = true) : Silent r before p rest := by
  rintro x c q rfl
  rw [shuns, Bool.and_eq_true, List.all_eq_true] at h
  have htail : mayBegin r (c :: q) = false := by
    simpa using h.2 (c :: q) ((List.mem_tails _ _).mpr ⟨x, rfl⟩)
  exact refuses_of_mayBegin htail rfl some

theorem shortest_pos_of_shuns (h : shuns r p = true) : 0 < r.shortest := by
  rw [shuns, Bool.and_eq_true] at h
  exact of_decide_eq_true h.1

/-- Characters in which no match begins stay at the start of a text. -/
theorem prefix_replaceAll_of_silent (hr : 0 < r.shortest) (h : ∀ rest, Silent r [] p rest)
    (ht : p <+: t) : p <+: replaceAll r f t := by
  obtain ⟨rest, rfl⟩ := ht
  obtain ⟨out, hout⟩ := exists_rewrites hr f (p.reverse ++ []) rest
  exact ⟨out, (Rewrites.skips (h rest) hout).replaceAll.symm⟩

theorem prefix_replaceAll (h : shuns r p = true) (ht : p <+: t) : p <+: replaceAll r f t :=
  prefix_replaceAll_of_silent (shortest_pos_of_shuns h) (fun _ => silent_of_shuns h) ht

theorem prefix_foldl_replaceAll {rs : List Regex} (h : rs.all (shuns · p) = true) (ht : p <+: t) :
    p <+: rs.foldl (fun t r => replaceAll r f t) t := by
  induction rs generalizing t with
  | nil => exact ht
  | cons r rs ih =>
    rw [List.all_cons, Bool.and_eq_true] at h
    exact ih h.2 (prefix_replaceAll h.1 ht)

/-! ## Patterns that look nowhere else -/

/-- Whether a pattern of sets, runs, sequences, alternatives and groups is nothing else. -/
def isLocal : Regex → Bool
  | .empty | .one _ | .span .. => true
  | .seq a b | .alt a b => isLocal a && isLocal b
  | .group _ r => isLocal r
  | .anchor _ | .loop .. | .backref .. | .look .. | .atomic _ | .ifGroup .. => false

/-- The cursor in the text with other characters in front of it, last one first. -/
def Cursor.behind (b : List Char) (s : Cursor) : Cursor :=
  { s with before := s.before ++ b, pos := s.pos + b.length }

variable {b : List Char}

theorem record_behind (s u : Cursor) (i : Nat) :
    (s.behind b).record (u.behind b) i = (s.record u i).behind b := by
  rw [Cursor.record, Cursor.record, Cursor.behind, Cursor.behind, Nat.add_sub_add_right]
  rfl

theorem stops_behind (set : CharSet) (most : Option Nat) (before after : List Char) (pos : Nat)
    (groups : List (Nat × Capture)) :
    stops set most (before ++ b) after (pos + b.length) groups =
      (stops set most before after pos groups).map (Cursor.behind b) := by
  induction after generalizing most before pos with
  | nil => rfl
  | cons c after ih =>
    have hnext := ih (most.map (· - 1)) (c :: before) (pos + 1)
    rw [Nat.add_right_comm, List.cons_append] at hnext
    rw [stops, stops, List.map_cons, hnext]
    split
    · rfl
    · rfl

theorem spanStops_behind (set : CharSet) (least : Nat) (most : Option Nat) (greed : Greed) :
    spanStops set least most greed (s.behind b) =
      (spanStops set least most greed s).map (Cursor.behind b) := by
  have hstops : stops set most (s.behind b).before (s.behind b).after (s.behind b).pos
      (s.behind b).groups = (stops set most s.before s.after s.pos s.groups).map (Cursor.behind b) :=
    stops_behind set most s.before s.after s.pos s.groups
  cases greed with
  | greedy => rw [spanStops, spanStops, hstops, ← List.map_drop, List.map_reverse]
  | lazy => rw [spanStops, spanStops, hstops, ← List.map_drop]
  | possessive =>
    rw [spanStops, spanStops, hstops, ← List.map_drop, List.getLast?_map, Option.toList_map]

/-- What stands before does not matter, if it does not matter to the continuation. -/
theorem run_behind (h : r.isLocal = true) {k k' : Cursor → Option Cursor}
    (hk : ∀ u, k (u.behind b) = (k' u).map (Cursor.behind b)) (s : Cursor) :
    run r (s.behind b) k = (run r s k').map (Cursor.behind b) := by
  induction r generalizing s k k' with
  | empty => exact hk s
  | one set =>
    rcases hafter : s.after with _ | ⟨c, rest⟩
    · rw [run_one_nil hafter, run_one_nil (s := s.behind b) hafter]
      rfl
    · rw [run_one_cons hafter, run_one_cons (s := s.behind b) hafter]
      split
      · rw [← hk]
        congr 1
        simp [Cursor.behind, Nat.add_right_comm]
      · rfl
  | span set least most greed =>
    rw [run_span, run_span, spanStops_behind, List.findSome?_map, List.map_findSome?]
    exact congrArg (List.findSome? · _) (funext hk)
  | seq a b iha ihb =>
    rw [isLocal, Bool.and_eq_true] at h
    exact iha h.1 (fun u => ihb h.2 hk u) s
  | alt a b iha ihb =>
    rw [isLocal, Bool.and_eq_true] at h
    rw [run_alt, run_alt, iha h.1 hk, ihb h.2 hk, Option.map_or]
  | group i r ih =>
    refine ih h (fun u => ?_) s
    rw [record_behind]
    exact hk _
  | anchor | loop | backref | look | atomic | ifGroup => cases h

/-- Replacing goes on behind other characters as it does at the start. -/
theorem Rewrites.behind (h : r.isLocal = true)
    (hf : ∀ s u, f ⟨s.behind b, u.behind b⟩ = f ⟨s, u⟩) (hout : Rewrites r f before t out) :
    Rewrites r f (before ++ b) t out := by
  have hspot : ∀ x y groups, spot (x ++ b) y groups = (spot x y groups).behind b := by
    intro x y groups
    simp [spot, Cursor.behind]
  have hrun : ∀ x y, run r (spot (x ++ b) y []) some = (run r (spot x y []) some).map (Cursor.behind b) := by
    intro x y
    rw [hspot]
    exact run_behind h (fun u => rfl) _
  induction hout with
  | nil hnone => exact .nil (by rw [hrun, hnone]; rfl)
  | skip hnone _ ih => exact .skip (by rw [hrun, hnone]; rfl) ih
  | @hit before cs rest out groups hcs hmatch _ ih =>
    rw [← hf, ← hspot, ← hspot, List.append_assoc]
    rw [List.append_assoc] at ih
    refine .hit hcs ?_ ih
    rw [hrun, hmatch, ← List.append_assoc, hspot]
    rfl

/-- So a text behind characters in which no match begins is replaced for itself. -/
theorem replaceAll_append (hr : 0 < r.shortest) (h : r.isLocal = true)
    (hf : ∀ b s u, f ⟨s.behind b, u.behind b⟩ = f ⟨s, u⟩) (hsilent : Silent r [] p t) :
    replaceAll r f (p ++ t) = p ++ replaceAll r f t := by
  have htext := (rewrites_replaceAll hr f t).behind (b := p.reverse) h (hf _)
  exact replaceAll_append_of_rewrites hsilent htext

end BlockMarkup.Regex
