import BlockMarkup.Naming.Options
import BlockMarkup.Proofs.Naming.GivenPatterns
import BlockMarkup.Proofs.Result

/-! # Options out of any configuration

Whatever value is given for the naming rules, options come out of it, with limits and word cases in their
ranges, and with those of the given patterns that can be read; what cannot be used is left out. There is one
exception: reading breaks off on a pattern with a count that is too large or with settings in conflict, and
such a pattern shows it (`fromConfig_returns_iff`).
-/

namespace BlockMarkup

open Regex (Reading ReadError readWith)

variable {v raw : Json} {e : ReadError} {p : CustomPattern} {entries : List (String × Json)}
  {source : List Char} {ignoreCase : Bool}

/-! ## One value -/

namespace CustomPattern

/-- A value gives a pattern: it is a text with a source that can be read. -/
def Gives (v : Json) (p : CustomPattern) : Prop :=
  ∃ s r, v = .str s ∧ written? s = some (p.source.toList, p.ignoreCase) ∧
    readWith { ignoreCase := p.ignoreCase } p.source.toList = .ok r ∧ p.regex = r.regex

/-- Reading breaks off on a value: it is a text with a source that is refused for another reason than its
form. -/
def Breaks (e : ReadError) (v : Json) : Prop :=
  e ≠ .malformed ∧ ∃ s source ignoreCase, v = .str s ∧ written? s = some (source, ignoreCase) ∧
    readWith {} source = .error e

/-- The reason shows in the text. -/
theorem Breaks.shownIn {s : String} (h : Breaks e (.str s)) : e ≠ .malformed ∧ e.ShownIn s.toList := by
  obtain ⟨hne, s', source, ignoreCase, hs, hwritten, hread⟩ := h
  cases hs
  exact ⟨hne, (Regex.shownIn_of_readWith_error hread).mono (infix_of_written? hwritten)⟩

end CustomPattern

/-! ## All patterns -/

namespace CustomPatterns

/-- The patterns and the keys they are given under. -/
def fields (c : CustomPatterns) : List (String × Option CustomPattern) :=
  [("block", c.block), ("element", c.element), ("modifier", c.modifier)]

theorem ofMembers_eq_ok {c : CustomPatterns} : ofMembers entries = .ok c ↔
    ∀ field ∈ c.fields, CustomPattern.coerce (.ofOption (Json.member? field.1 entries)) = .ok field.2 := by
  obtain ⟨block, element, modifier⟩ := c
  unfold ofMembers fields
  simp only [bind_eq_ok, List.forall_mem_cons]
  constructor
  · rintro ⟨_, hblock, _, helement, _, hmodifier, ⟨⟩⟩
    exact ⟨hblock, helement, hmodifier, by simp⟩
  · rintro ⟨hblock, helement, hmodifier, -⟩
    exact ⟨_, hblock, _, helement, _, hmodifier, rfl⟩

end CustomPatterns

/-- The patterns as they are given with the naming rules, under either name of the setting. -/
def Json.patternEntries (raw : Json) : List (String × Json) :=
  ((Json.either? (raw.members?.getD []) "customPatterns" "custom_patterns").bind Json.members?).getD []

namespace NamingOptions

theorem fromConfig_eq_ok {n : NamingOptions} (h : fromConfig raw = .ok n) :
    CustomPatterns.ofMembers raw.patternEntries = .ok n.custom ∧ ∃ v, n.blockMaxWords = readMaxWords v := by
  unfold fromConfig at h
  obtain ⟨custom, hcustom, h⟩ := bind_eq_ok.mp h
  cases h
  exact ⟨hcustom, _, rfl⟩

end NamingOptions

end BlockMarkup
