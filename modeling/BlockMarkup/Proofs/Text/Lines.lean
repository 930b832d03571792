import Mathlib.Data.List.Basic
import BlockMarkup.Text.Lines

/-! # Lines of texts put together

A line feed between two texts keeps their lines apart (`linesOf_append`), so the lines of joined
texts are the lines of each of them in turn (`linesOf_joined`). In a text that has been read there is no
line break but the line feed (`notMem_unifyBreaks`), and such a text stays what it is
(`unifyBreaks_of_notMem`).
-/

namespace BlockMarkup.Text

theorem linesOf_append (s t : List Char) : linesOf (s ++ '\n' :: t) = linesOf s ++ linesOf t := by
  induction s with
  | nil => simp [linesOf]
  | cons c s ih =>
    by_cases hc : c = '\n'
    · simp [linesOf, hc, ih]
    · rcases hlines : linesOf s with _ | ⟨line, lines⟩
      · exact absurd hlines (linesOf_ne_nil s)
      · simp [linesOf, hc, ih, hlines]

/-- A text without line feeds is one line. -/
theorem linesOf_of_notMem {s : List Char} (h : '\n' ∉ s) : linesOf s = [s] := by
  induction s with
  | nil => rfl
  | cons c s ih =>
    rw [List.mem_cons, not_or] at h
    rw [linesOf, if_neg (Ne.symm h.1), ih h.2]

theorem linesOf_joined {texts : List (List Char)} (hne : texts ≠ []) :
    linesOf (joined texts) = texts.flatMap linesOf := by
  induction texts with
  | nil => exact absurd rfl hne
  | cons s texts ih =>
    cases texts with
    | nil => simp [joined]
    | cons t texts =>
      rw [joined_cons s (by simp), linesOf_append, ih (by simp)]
      rfl

theorem joined_append {xs ys : List (List Char)} (hxs : xs ≠ []) (hys : ys ≠ []) :
    joined (xs ++ ys) = joined xs ++ '\n' :: joined ys := by
  induction xs with
  | nil => exact absurd rfl hxs
  | cons x xs ih =>
    cases xs with
    | nil => exact joined_cons x hys
    | cons x' xs =>
      rw [List.cons_append, joined_cons x (by simp), ih (by simp), joined_cons x (by simp),
        List.append_assoc, List.cons_append]

theorem toList_intercalate (texts : List String) :
    ("\n".intercalate texts).toList = joined (texts.map String.toList) := by
  rw [String.toList_intercalate]
  induction texts with
  | nil => rfl
  | cons s texts ih =>
    cases texts with
    | nil => simp [joined]
    | cons t texts =>
      rw [List.map_cons, joined_cons _ (by simp), ← ih]
      rfl

theorem intercalate_append {texts texts' : List String} (h : texts ≠ []) (h' : texts' ≠ []) :
    "\n".intercalate (texts ++ texts') = "\n".intercalate texts ++ "\n" ++ "\n".intercalate texts' := by
  rw [← String.toList_inj, String.toList_append, String.toList_append, toList_intercalate,
    toList_intercalate, toList_intercalate, List.map_append,
    joined_append (by simpa using h) (by simpa using h'), List.append_assoc]
  rfl

/-- Texts that have been put together may be put together with others one by one. -/
theorem intercalate_intercalate {before texts after : List String} (hbefore : before ≠ [])
    (htexts : texts ≠ []) (hafter : after ≠ []) :
    "\n".intercalate (before ++ "\n".intercalate texts :: after) =
      "\n".intercalate (before ++ texts ++ after) := by
  have hone : ∀ s : String, "\n".intercalate [s] = s := fun _ => rfl
  have hsplit : "\n".intercalate texts :: after = ["\n".intercalate texts] ++ after := rfl
  rw [hsplit, List.append_assoc, intercalate_append hbefore (by simp),
    intercalate_append hbefore (by simp [htexts]), intercalate_append (by simp) hafter,
    intercalate_append htexts hafter, hone]

/-- The lines of texts that are put together, each on lines of its own. -/
theorem linesOf_intercalate_flatMap {texts : List String} (hne : texts ≠ []) :
    linesOf ("\n".intercalate texts).toList = texts.flatMap fun s => linesOf s.toList := by
  rw [toList_intercalate, linesOf_joined (by simpa using hne), List.flatMap_map]

/-- Lines that are joined and closed by a line feed are the lines of the text. -/
theorem linesOf_intercalate {lines : List String} (hne : lines ≠ [])
    (h : ∀ line ∈ lines, '\n' ∉ line.toList) :
    linesOf ("\n".intercalate lines ++ "\n").toList = lines.map String.toList ++ [[]] := by
  have hlines : ∀ line ∈ lines, linesOf line.toList = [line.toList] :=
    fun line hline => linesOf_of_notMem (h line hline)
  have hfeed : "\n".toList = '\n' :: [] := rfl
  rw [String.toList_append, hfeed, linesOf_append, linesOf_intercalate_flatMap hne,
    List.flatMap_congr hlines, ← List.map_eq_flatMap]
  rfl

/-! ## Line breaks -/

theorem unifyBreaks_of_notMem {s : List Char} (h : '\r' ∉ s) : unifyBreaks s = s := by
  fun_induction unifyBreaks s with
  | case1 => rfl
  | case2 | case3 => exact absurd List.mem_cons_self h
  | case4 c rest _ _ ih => rw [ih fun hmem => h (List.mem_cons_of_mem c hmem)]

theorem notMem_unifyBreaks (s : List Char) : '\r' ∉ unifyBreaks s := by
  fun_induction unifyBreaks s with
  | case1 => exact List.not_mem_nil
  | case2 rest ih | case3 rest _ ih => simpa using ih
  | case4 c rest hbreak hreturn ih =>
    rw [List.mem_cons, not_or]
    exact ⟨fun hc => hreturn hc.symm, ih⟩

theorem unifyBreaks_append {w : List Char} (h : '\r' ∉ w) (t : List Char) :
    unifyBreaks (w ++ t) = w ++ unifyBreaks t := by
  induction w with
  | nil => rfl
  | cons c w ih =>
    rw [List.mem_cons, not_or] at h
    rw [List.cons_append, unifyBreaks.eq_4 c _ (fun _ hc _ => h.1 hc.symm) (fun hc => h.1 hc.symm), ih h.2]
    rfl

/-- A carriage return becomes a line feed of its own, or goes into the one behind it. -/
theorem unifyBreaks_return (s : List Char) :
    unifyBreaks ('\r' :: s) = '\n' :: unifyBreaks s ∨ unifyBreaks ('\r' :: s) = unifyBreaks s := by
  cases s with
  | nil => exact .inl rfl
  | cons c s =>
    by_cases hc : c = '\n'
    · subst hc
      exact .inr rfl
    · exact .inl (unifyBreaks.eq_3 _ fun _ h => hc (List.cons.inj h).1)

/-- Where a character of the unified text comes from. -/
theorem exists_of_unifyBreaks_eq_cons {s t' : List Char} {c : Char} (h : unifyBreaks s = c :: t') :
    ∃ t, unifyBreaks t = t' ∧
      (s = c :: t ∨ c = '\n' ∧ (s = '\r' :: t ∨ s = '\r' :: '\n' :: t)) := by
  fun_cases unifyBreaks s with
  | case1 => cases h
  | case2 rest =>
    cases h
    exact ⟨rest, rfl, .inr ⟨rfl, .inr rfl⟩⟩
  | case3 rest hfeed =>
    rw [unifyBreaks.eq_3 _ hfeed] at h
    cases h
    exact ⟨rest, rfl, .inr ⟨rfl, .inl rfl⟩⟩
  | case4 d rest hbreak hreturn =>
    rw [unifyBreaks.eq_4 _ _ hbreak hreturn] at h
    cases h
    exact ⟨rest, rfl, .inl rfl⟩

theorem exists_of_unifyBreaks_eq_append {s w t' : List Char} (hw : '\n' ∉ w)
    (h : unifyBreaks s = w ++ t') : ∃ t, s = w ++ t ∧ unifyBreaks t = t' := by
  induction w generalizing s with
  | nil => exact ⟨s, rfl, h⟩
  | cons c w ih =>
    rw [List.mem_cons, not_or] at hw
    obtain ⟨rest, hrest, rfl | ⟨rfl, -⟩⟩ := exists_of_unifyBreaks_eq_cons h
    · obtain ⟨t, rfl, ht⟩ := ih hw.2 hrest
      exact ⟨t, rfl, ht⟩
    · exact absurd rfl hw.1

/-- A line of a text has characters of the text, but no line feed. -/
theorem mem_of_mem_linesOf {s line : List Char} (h : line ∈ linesOf s) :
    '\n' ∉ line ∧ ∀ c ∈ line, c ∈ s := by
  induction s generalizing line with
  | nil =>
    rw [linesOf, List.mem_singleton] at h
    simp [h]
  | cons d s ih =>
    -- a line of the rest is one of the whole, but for the first one, which the character may extend
    have hrest : ∀ {l : List Char}, l ∈ linesOf s → '\n' ∉ l ∧ ∀ c ∈ l, c ∈ d :: s := by
      intro l hl
      obtain ⟨hfeed, hchars⟩ := ih hl
      exact ⟨hfeed, fun c hc => List.mem_cons_of_mem d (hchars c hc)⟩
    rw [linesOf] at h
    split at h
    · rcases List.mem_cons.mp h with rfl | h
      · simp
      · exact hrest h
    · rename_i hd
      split at h
      · rename_i hnil
        exact absurd hnil (linesOf_ne_nil s)
      · rename_i first others hlines
        rw [hlines] at hrest
        rcases List.mem_cons.mp h with rfl | h
        · obtain ⟨hfeed, hchars⟩ := hrest List.mem_cons_self
          refine ⟨?_, List.forall_mem_cons.mpr ⟨List.mem_cons_self, hchars⟩⟩
          rw [List.mem_cons, not_or]
          exact ⟨Ne.symm hd, hfeed⟩
        · exact hrest (List.mem_cons_of_mem _ h)

end BlockMarkup.Text
