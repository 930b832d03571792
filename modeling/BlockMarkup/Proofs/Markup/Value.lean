import BlockMarkup.Proofs.Regex.Preferred
import BlockMarkup.Markup.Render

/-! # Written values

The values of attributes are written in quotes, the signs of markup and the quotes themselves as
references (`quoteValue_spec`). Reading resolves the references again (`resolveValue_flatMap`).
-/

namespace BlockMarkup.Markup

open BlockMarkup.Regex (CharSet Cursor Eats Refuses Rewrites)
open BlockMarkup.Regex.Cursor (spot)

/-- How characters are written in a value: as they are, or as references. -/
def Spells (f : Char → List Char) : Prop :=
  ∀ c, (f c = [c] ∧ c ≠ '&') ∨ ∃ name, f c = '&' :: (name ++ [';']) ∧
    name ∈ ["amp".toList, "lt".toList, "gt".toList, "quot".toList] ∧
    entityText? false name = some [c]

theorem refuses_char {c : Char} {s : Cursor} (h : ∀ d, s.after.head? = some d → d ≠ c) :
    Refuses (Regex.run (.one (.single c))) s :=
  Regex.refuses_one fun d hd => by
    rw [CharSet.contains_single, beq_eq_false_iff_ne]
    exact h d hd

/-- The inside of a reference by name, up to its semicolon. -/
def insideSet : CharSet := (CharSet.ofList ['\t', '\n', '\x0c', ' ', '<', '&', '#', ';']).not

theorem eats_reference {name before rest : List Char} (hne : name ≠ []) (hlength : name.length ≤ 32)
    (hname : ∀ c ∈ name, insideSet.contains c = true) :
    Eats Pattern.reference (['&'] ++ (name ++ [';'])) before rest []
      [(1, .of (name ++ [';']) rest)] := by
  have hsharp : ∀ d, (name ++ [';'] ++ rest).head? = some d → d ≠ '#' := by
    rintro d hd rfl
    cases name with
    | nil => exact hne rfl
    | cons c name =>
      cases hd
      exact absurd (hname '#' List.mem_cons_self) (by decide)
  have hinside : Eats (.oneOf [
      .text "#" ++ .many1 (.between '0' '9') ++ .opt (.text ";"),
      .text "#" ++ .one (.ofList ['x', 'X']) ++ .many1 Pattern.hexSet ++ .opt (.text ";"),
      .span insideSet 1 (some 32) .greedy ++ .opt (.text ";")])
      (name ++ [';']) (['&'].reverse ++ before) rest [] [] := by
    refine Eats.alt_right (Refuses.seq (Refuses.seq (refuses_char hsharp))) ?_
    refine Eats.alt_right (Refuses.seq (Refuses.seq (Refuses.seq (refuses_char hsharp)))) ?_
    refine Eats.seq (Regex.eats_span hname (List.length_pos_iff.mpr hne) (by simpa using hlength) ?_)
      (Eats.alt_left Regex.eats_text)
    intro c hc
    cases hc
    rfl
  have htext : Eats (.text "&") ['&'] before ((name ++ [';']) ++ rest) [] [] := Regex.eats_text
  exact htext.seq hinside.group

/-- A value is read back from how it is written. -/
theorem rewrites_reference {f : Char → List Char} (hf : Spells f) (v before : List Char) :
    Rewrites Pattern.reference (fun m => valueReference (m.group 1)) before (v.flatMap f) v := by
  induction v generalizing before with
  | nil =>
    refine .nil ?_
    exact Refuses.seq (refuses_char (s := spot before [] []) fun d hd => by cases hd) some
  | cons c v ih =>
    rw [List.flatMap_cons]
    -- the character stands for itself, or one of four names stands for it
    rcases hf c with ⟨hc, hne⟩ | ⟨name, hc, hname, hentity⟩
    · rw [hc]
      refine .skip ?_ (ih (c :: before))
      exact Refuses.seq (refuses_char (s := spot before (c :: v.flatMap f) []) fun d hd => by
        cases hd
        exact hne) some
    · have hset : ∀ name ∈ ["amp".toList, "lt".toList, "gt".toList, "quot".toList],
          name ≠ [] ∧ name.length ≤ 32 ∧ name.all insideSet.contains = true ∧
            some (valueReference (name ++ [';'])) = entityText? false name := by
        decide
      obtain ⟨hnonempty, hlength, hinside, hvalue⟩ := hset name hname
      have heats : Eats Pattern.reference ('&' :: (name ++ [';'])) before (v.flatMap f) []
          [(1, .of (name ++ [';']) (v.flatMap f))] :=
        eats_reference hnonempty hlength (List.all_eq_true.mp hinside)
      have hmatch := heats some _ rfl
      rw [hentity, Option.some.injEq] at hvalue
      have hgoes := Rewrites.hit (f := fun m => valueReference (m.group 1)) (by simp) hmatch (ih _)
      rw [Regex.Match.group_eq (List.lookup_cons_self ..), hvalue] at hgoes
      rw [hc]
      exact hgoes

theorem resolveValue_flatMap {f : Char → List Char} (hf : Spells f) (v : List Char) :
    resolveValue (v.flatMap f) = v :=
  (rewrites_reference hf v []).replaceAll

theorem spells_escapeChar : Spells escapeChar := by
  intro c
  by_cases hamp : c = '&'
  · exact Or.inr ⟨"amp".toList, by rw [hamp]; rfl, by decide, by rw [hamp]; rfl⟩
  by_cases hlt : c = '<'
  · exact Or.inr ⟨"lt".toList, by rw [hlt]; rfl, by decide, by rw [hlt]; rfl⟩
  by_cases hgt : c = '>'
  · exact Or.inr ⟨"gt".toList, by rw [hgt]; rfl, by decide, by rw [hgt]; rfl⟩
  · refine Or.inl ⟨?_, hamp⟩
    rw [escapeChar, if_neg hamp, if_neg hlt, if_neg hgt]

/-- A character of a value that holds quotes of both kinds. -/
def escapeQuoted (c : Char) : List Char := if c = '"' then "&quot;".toList else escapeChar c

theorem spells_escapeQuoted : Spells escapeQuoted := by
  intro c
  rw [escapeQuoted]
  split
  · rename_i hc
    exact Or.inr ⟨"quot".toList, rfl, by decide, by rw [hc]; rfl⟩
  · exact spells_escapeChar c

theorem flatMap_escapeChar (c : Char) :
    ((escapeChar c).flatMap fun d => if d = '"' then "&quot;".toList else [d]) = escapeQuoted c := by
  by_cases hamp : c = '&'
  · rw [hamp]
    rfl
  by_cases hlt : c = '<'
  · rw [hlt]
    rfl
  by_cases hgt : c = '>'
  · rw [hgt]
    rfl
  · rw [escapeQuoted, escapeChar, if_neg hamp, if_neg hlt, if_neg hgt, List.flatMap_singleton]

theorem not_mem_escapeQuoted (c : Char) : '"' ∉ escapeQuoted c := by
  rw [escapeQuoted, escapeChar]
  split
  · decide
  · rename_i hc
    split
    · decide
    · split
      · decide
      · split
        · decide
        · simpa using fun h => hc h.symm

/-- How a value is written: in quotes that do not stand in it, and so that it is read back. -/
theorem quoteValue_spec (v : List Char) : ∃ q body, (q = '"' ∨ q = '\'') ∧
    quoteValue v = q :: (body ++ [q]) ∧ q ∉ body ∧ resolveValue body = v := by
  unfold quoteValue
  dsimp only
  split
  · split
    · refine ⟨'"', v.flatMap escapeQuoted, Or.inl rfl, ?_, ?_,
        resolveValue_flatMap spells_escapeQuoted v⟩
      · rw [escapeText, List.flatMap_assoc]
        simp only [flatMap_escapeChar, List.cons_append]
      · rw [List.mem_flatMap]
        rintro ⟨c, _, hc⟩
        exact not_mem_escapeQuoted c hc
    · rename_i hsingle
      refine ⟨'\'', escapeText v, Or.inr rfl, rfl, ?_, resolveValue_flatMap spells_escapeChar v⟩
      simpa using hsingle
  · rename_i hdouble
    refine ⟨'"', escapeText v, Or.inl rfl, rfl, ?_, resolveValue_flatMap spells_escapeChar v⟩
    simpa using hdouble

theorem not_mem_escapeText {v : List Char} (h : '"' ∉ v) : '"' ∉ escapeText v := by
  rw [escapeText, List.mem_flatMap]
  rintro ⟨c, hc, hmem⟩
  refine not_mem_escapeQuoted c ?_
  have hne : c ≠ '"' := by
    rintro rfl
    exact h hc
  rw [escapeQuoted, if_neg hne]
  exact hmem

/-- A value without double quotes is written in them. -/
theorem quoteValue_of_not_mem {v : List Char} (h : '"' ∉ v) :
    quoteValue v = '"' :: (escapeText v ++ ['"']) := by
  unfold quoteValue
  dsimp only
  rw [if_neg (by simpa using not_mem_escapeText h)]
  rfl

end BlockMarkup.Markup
