import Mathlib.Data.List.Chain
import BlockMarkup.Proofs.Text.Letters

/-! # Words that the letter case tells apart

A name without separators is cut where a capital stands behind a small letter or a digit, and before the
last capital of a row that a small letter follows. So any two neighbours among its words show where the
first one ends (`chain_wordsOf_breakCase`). That does not change when all capitals behind the first
character of a word are written small, and words that are written so and show their ends are found again in
the text that they make up (`wordsOf_breakCase_flatten`).
-/

namespace BlockMarkup.FileName

open Text (isBlank wordsFrom wordsOf)

variable {a b : Char} {next : Option Char} {s v w rest : List Char} {ws : List (List Char)}

/-! ## Breaks -/

theorem isUpper_of_endsBetween (h : endsBetween a b next = true) : b.isUpper = true := by
  simp only [endsBetween, Bool.or_eq_true, Bool.and_eq_true] at h
  rcases h with ⟨-, hupper⟩ | ⟨⟨-, hupper⟩, -⟩
  · exact hupper
  · exact hupper

theorem breakCase_cons_cons (a b : Char) (rest : List Char) : breakCase (a :: b :: rest) =
    a :: ((if endsBetween a b rest.head? then [' '] else []) ++ breakCase (b :: rest)) := by
  rw [breakCase]
  split <;> rfl

theorem head?_breakCase (a : Char) (s : List Char) : ∃ t, breakCase (a :: s) = a :: t := by
  cases s with
  | nil => exact ⟨[], rfl⟩
  | cons b s => exact ⟨_, breakCase_cons_cons a b s⟩

/-- Nothing but blanks is put in. -/
theorem filter_breakCase {p : Char → Bool} (hp : p ' ' = false) (s : List Char) :
    (breakCase s).filter p = s.filter p := by
  fun_induction breakCase s with
  | case1 a b rest _ ih => simp only [List.filter_cons, hp, ih, Bool.false_eq_true, if_false]
  | case2 a b rest _ ih => simp only [List.filter_cons, ih]
  | case3 s _ => rfl

/-- A text is not broken where there are no capitals. -/
theorem breakCase_eq_self (h : ∀ c ∈ s.tail, c.isUpper = false) : breakCase s = s := by
  fun_induction breakCase s with
  | case1 a b rest hends _ =>
    have hupper := isUpper_of_endsBetween hends
    rw [h b List.mem_cons_self] at hupper
    cases hupper
  | case2 a b rest _ ih => rw [ih fun c hc => h c (List.mem_cons_of_mem b hc)]
  | case3 s _ => rfl

/-- Behind the end of a word the text is broken as it is on its own, and so it is before that: the
character behind the end is a capital. -/
theorem breakCase_append (h : endsBetween a b rest.head? = true) (w : List Char) :
    breakCase (w ++ a :: b :: rest) = breakCase (w ++ [a]) ++ ' ' :: breakCase (b :: rest) := by
  induction w with
  | nil =>
    rw [List.nil_append, breakCase_cons_cons, if_pos h]
    rfl
  | cons c w ih =>
    cases w with
    | nil =>
      -- whether there is a break before `a` depends on `b` too, but only if that is a small letter
      have hnext : endsBetween c a (some b) = endsBetween c a none := by
        have hsmall := Text.isLower_of_isUpper (isUpper_of_endsBetween h)
        simp [endsBetween, hsmall]
      rw [List.nil_append] at ih
      rw [List.singleton_append, breakCase_cons_cons, ih, List.head?_cons, hnext, List.singleton_append,
        breakCase_cons_cons, List.cons_append, List.append_assoc]
      rfl
    | cons d w =>
      have hnext : (w ++ a :: b :: rest).head? = (w ++ [a]).head? := by cases w <;> rfl
      simp only [List.cons_append] at ih ⊢
      rw [breakCase_cons_cons, ih, hnext, breakCase_cons_cons]
      simp

/-- A character that is no letter behind the text changes nothing before it. -/
theorem breakCase_concat (hupper : b.isUpper = false) (hlower : b.isLower = false) (s : List Char) :
    breakCase (s ++ [b]) = breakCase s ++ [b] := by
  induction s with
  | nil => rfl
  | cons c s ih =>
    cases s with
    | nil =>
      have hnone : endsBetween c b none = false := by simp [endsBetween, hupper]
      rw [List.singleton_append, breakCase_cons_cons, List.head?_nil, hnone]
      rfl
    | cons d s =>
      have hnext : endsBetween c d (s ++ [b]).head? = endsBetween c d s.head? := by
        cases s <;> simp [endsBetween, hlower]
      rw [List.cons_append] at ih ⊢
      rw [List.cons_append, breakCase_cons_cons, ih, hnext, breakCase_cons_cons, List.cons_append,
        List.append_assoc]

/-! ## Words -/

/-- The first characters of the second word show that the first word ends there. -/
def EndsBefore (v w : List Char) : Prop :=
  ∃ a b rest, v.getLast? = some a ∧ w = b :: rest ∧ endsBetween a b rest.head? = true

theorem EndsBefore.cons (h : EndsBefore v w) (c : Char) : EndsBefore (c :: v) w := by
  obtain ⟨a, b, rest, hlast, hw, hends⟩ := h
  refine ⟨a, b, rest, ?_, hw, hends⟩
  rw [List.getLast?_cons, hlast]
  rfl

/-- A character before a word belongs to the word. -/
theorem wordsOf_cons_cons (ha : isBlank a = false) (hb : isBlank b = false) (s : List Char) :
    wordsOf (a :: b :: s) = (wordsOf (b :: s)).modifyHead (a :: ·) := by
  -- the word that is being read may be any that has begun
  have hlonger : ∀ s word : List Char, word ≠ [] →
      wordsFrom (word ++ [a]) s = (wordsFrom word s).modifyHead (a :: ·) := by
    intro s
    induction s with
    | nil =>
      intro word hword
      simp [wordsFrom, hword]
    | cons c s ih =>
      intro word hword
      rw [wordsFrom, wordsFrom]
      split
      · simp [hword]
      · rw [← List.cons_append, ih _ (List.cons_ne_nil _ _)]
  have hone : wordsOf (b :: s) = wordsFrom [b] s := by rw [wordsOf, wordsFrom, if_neg (by simp [hb])]
  rw [wordsOf, wordsFrom, if_neg (by simp [ha]), wordsFrom, if_neg (by simp [hb]), hone]
  exact hlonger s [b] (List.cons_ne_nil _ _)

theorem flatten_wordsOf_breakCase (hs : ∀ c ∈ s, isBlank c = false) : (wordsOf (breakCase s)).flatten = s := by
  rw [Text.wordsOf_flatten, filter_breakCase rfl, List.filter_eq_self]
  exact fun c hc => by rw [hs c hc]; rfl

/-- The first word of a text begins with its first character. -/
theorem exists_wordsOf_breakCase (hs : ∀ c ∈ a :: s, isBlank c = false) :
    ∃ w ws, wordsOf (breakCase (a :: s)) = (a :: w) :: ws ∧ w ++ ws.flatten = s := by
  have hflatten := flatten_wordsOf_breakCase hs
  have hne := Text.wordsFrom_ne_nil (breakCase (a :: s)) []
  change ∀ w ∈ wordsOf (breakCase (a :: s)), w ≠ [] at hne
  match hwords : wordsOf (breakCase (a :: s)) with
  | [] =>
    rw [hwords] at hflatten
    cases hflatten
  | [] :: ws => exact absurd rfl (hne [] (by rw [hwords]; exact List.mem_cons_self))
  | (c :: w) :: ws =>
    rw [hwords, List.flatten_cons, List.cons_append, List.cons.injEq] at hflatten
    obtain ⟨rfl, hrest⟩ := hflatten
    exact ⟨w, ws, rfl, hrest⟩

/-- Where a text is cut, both words show it. -/
theorem chain_wordsOf_breakCase (hs : ∀ c ∈ s, isBlank c = false) :
    (wordsOf (breakCase s)).IsChain EndsBefore := by
  fun_induction breakCase s with
  | case1 a b rest hends ih =>
    rw [List.forall_mem_cons] at hs
    have hspace := Text.wordsOf_append_space (List.cons_ne_nil a []) (by simpa using hs.1)
      (breakCase (b :: rest))
    rw [List.singleton_append] at hspace
    obtain ⟨w, ws, hwords, hrest⟩ := exists_wordsOf_breakCase hs.2
    have hchain := ih hs.2
    rw [hspace, hwords]
    rw [hwords] at hchain
    refine List.isChain_cons_cons.mpr ⟨⟨a, b, w, rfl, rfl, ?_⟩, hchain⟩
    cases w with
    | cons c w =>
      rw [← hrest] at hends
      exact hends
    | nil =>
      -- what follows belongs to another word, so it is a capital, or there is nothing
      have hnext : (rest.head?.any Char.isLower) = false := by
        rw [← hrest]
        cases ws with
        | nil => rfl
        | cons v ws =>
          obtain ⟨_, c, v', _, rfl, hnext⟩ := (List.isChain_cons_cons.mp hchain).1
          exact Text.isLower_of_isUpper (isUpper_of_endsBetween hnext)
      rw [endsBetween, hnext] at hends
      simpa [endsBetween] using hends
  | case2 a b rest _ ih =>
    rw [List.forall_mem_cons] at hs
    obtain ⟨t, ht⟩ := head?_breakCase b rest
    have hchain := ih hs.2
    rw [ht] at hchain ⊢
    rw [wordsOf_cons_cons hs.1 (hs.2 b List.mem_cons_self)]
    cases hwords : wordsOf (b :: t) with
    | nil => exact List.isChain_nil
    | cons v ws =>
      cases ws with
      | nil => exact List.isChain_singleton _
      | cons w ws =>
        rw [hwords, List.isChain_cons_cons] at hchain
        exact List.isChain_cons_cons.mpr ⟨hchain.1.cons a, hchain.2⟩
  | case3 s hshort =>
    cases s with
    | nil => exact List.isChain_nil
    | cons c s =>
      cases s with
      | nil =>
        rw [Text.wordsOf_self (List.cons_ne_nil _ _) hs]
        exact List.isChain_singleton _
      | cons d s => exact absurd rfl (hshort c d s)

/-- A word whose capitals, if it has any, stand in front. -/
structure Simple (w : List Char) : Prop where
  ne_nil : w ≠ []
  filled : ∀ c ∈ w, isBlank c = false
  small : ∀ c ∈ w.tail, c.isUpper = false

/-- Simple words that show their ends are found again. -/
theorem wordsOf_breakCase_flatten (hws : ∀ w ∈ ws, Simple w) (h : ws.IsChain EndsBefore) :
    wordsOf (breakCase ws.flatten) = ws := by
  induction ws with
  | nil => rfl
  | cons w ws ih =>
    rw [List.forall_mem_cons] at hws
    cases ws with
    | nil =>
      rw [List.flatten_singleton, breakCase_eq_self hws.1.small,
        Text.wordsOf_self hws.1.ne_nil hws.1.filled]
    | cons v ws =>
      rw [List.isChain_cons_cons] at h
      obtain ⟨⟨a, b, rest, hlast, rfl, hends⟩, hchain⟩ := h
      obtain ⟨w, rfl⟩ := List.getLast?_eq_some_iff.mp hlast
      -- the next word goes on as far as its end can be seen
      have hnext : endsBetween a b (rest ++ ws.flatten).head? = true := by
        cases rest with
        | cons c rest => exact hends
        | nil =>
          simp only [endsBetween, List.head?_nil, Option.any_none, Bool.and_false, Bool.or_false] at hends
          simp [endsBetween, hends]
      have hflatten : ((w ++ [a]) :: (b :: rest) :: ws).flatten = w ++ a :: b :: (rest ++ ws.flatten) := by
        simp
      rw [hflatten, breakCase_append hnext, breakCase_eq_self hws.1.small,
        Text.wordsOf_append_space hws.1.ne_nil hws.1.filled]
      congr 1
      exact ih hws.2 hchain

/-! ## Words in small letters -/

/-- A word with small letters behind its first character. -/
def recased : List Char → List Char
  | [] => []
  | c :: w => c :: w.map Char.toLower

theorem map_toLower_recased (w : List Char) : (recased w).map Char.toLower = w.map Char.toLower := by
  cases w with
  | nil => rfl
  | cons c w =>
    rw [recased, List.map_cons, List.map_map, List.map_cons]
    refine congrArg _ (List.map_congr_left fun d _ => ?_)
    exact Text.toLower_toLower d

/-- Small letters and digits do not hide the end of a word. -/
theorem EndsBefore.recased (h : EndsBefore v w) (hv : ∀ c ∈ v, c.isAlphanum = true) :
    EndsBefore (recased v) (recased w) := by
  obtain ⟨a, b, rest, hlast, rfl, hends⟩ := h
  have hupper := isUpper_of_endsBetween hends
  obtain ⟨v, rfl⟩ := List.getLast?_eq_some_iff.mp hlast
  cases v with
  | nil =>
    refine ⟨a, b, rest.map Char.toLower, rfl, rfl, ?_⟩
    cases rest with
    | nil => exact hends
    | cons c rest =>
      simp only [endsBetween, List.map_cons, List.head?_cons, Option.any_some, hupper, Bool.and_true,
        Bool.or_eq_true, Bool.and_eq_true] at hends ⊢
      refine hends.imp_right fun ⟨ha, hc⟩ => ⟨ha, ?_⟩
      rwa [Text.toLower_eq_self (Text.isUpper_of_isLower hc)]
  | cons c v =>
    have hword : FileName.recased (c :: v ++ [a]) = c :: v.map Char.toLower ++ [a.toLower] := by
      simp [FileName.recased]
    refine ⟨a.toLower, b, rest.map Char.toLower, ?_, rfl, ?_⟩
    · rw [hword, List.getLast?_concat]
    · have hsmall := Text.isLowerOrDigit_toLower (hv a (by simp))
      rw [endsBetween, hsmall, hupper]
      rfl

end BlockMarkup.FileName
