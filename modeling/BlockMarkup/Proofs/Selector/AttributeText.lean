import BlockMarkup.Component.Basic

/-! # Selectors of attributes, read back

In a stylesheet a selector of an attribute is read as such: the key is an identifier, and the value is a
text in double quotes in which a backslash makes the next character stand for itself and the first quote
without one ends the value (`AttributeTest.ofText?`). Values are put between quotes as they are. So a
value is read back just if there is neither a quote nor a backslash in it (`read_selector`); one with a
quote gives no selector at all, and one with a backslash may give the selector of another value.
-/

namespace BlockMarkup

/-! ## Reading -/

/-- What a selector asks of an attribute: that it is there, or that it has a value. -/
structure AttributeTest where
  key : String
  value : Option String
deriving DecidableEq, Repr

namespace AttributeTest

/-- A letter, an underscore or a character beyond ASCII. -/
def isNameStart (c : Char) : Bool := c.isAlpha || c == '_' || 0x80 ≤ c.toNat

/-- A character inside of an identifier. -/
def isNamePart (c : Char) : Bool := isNameStart c || c.isDigit || c == '-'

/-- An identifier of stylesheets. One hyphen may stand before its first letter, and two before anything. -/
def isIdentifier : List Char → Bool
  | [] => false
  | '-' :: '-' :: rest => rest.all isNamePart
  | '-' :: c :: rest => isNameStart c && rest.all isNamePart
  | c :: rest => isNameStart c && rest.all isNamePart

/-- The rest of a quoted value, and what stands behind the quote that ends it. -/
def readQuoted : List Char → Option (List Char × List Char)
  | [] => none
  | '"' :: rest => some ([], rest)
  | '\\' :: [] => none
  | '\\' :: c :: rest => (readQuoted rest).map fun p => (c :: p.1, p.2)
  | c :: rest => (readQuoted rest).map fun p => (c :: p.1, p.2)

/-- The value that has been read, if nothing but the closing bracket stands behind it. -/
def closed : Option (List Char × List Char) → Option (List Char)
  | some (v, [']']) => some v
  | _ => none

/-- What stands behind the key. -/
def readValue : List Char → Option (Option String)
  | [']'] => some none
  | '=' :: '"' :: rest => (closed (readQuoted rest)).map fun v => some (String.ofList v)
  | _ => none

/-- Reads a selector, which may be of one attribute only. -/
def ofText? (s : String) : Option AttributeTest :=
  match s.toList with
  | '[' :: rest =>
    if isIdentifier (rest.takeWhile isNamePart) then
      (readValue (rest.dropWhile isNamePart)).map fun v => ⟨String.ofList (rest.takeWhile isNamePart), v⟩
    else none
  | _ => none

/-- What is read for the characters between the quotes; none if one of them is a quote that ends the value
early, or if the last one is a backslash that takes the closing quote. -/
def denoted : List Char → Option (List Char)
  | [] => some []
  | '"' :: _ => none
  | '\\' :: [] => none
  | '\\' :: c :: rest => (denoted rest).map (c :: ·)
  | c :: rest => (denoted rest).map (c :: ·)

/-- Nothing in the text has a meaning between quotes. -/
def Literal (s : List Char) : Prop := '"' ∉ s ∧ '\\' ∉ s

instance (s : List Char) : Decidable (Literal s) := inferInstanceAs (Decidable (_ ∧ _))

variable {s v u rest : List Char} {c : Char}

theorem readQuoted_cons (hquote : c ≠ '"') (hbackslash : c ≠ '\\') :
    readQuoted (c :: rest) = (readQuoted rest).map fun p => (c :: p.1, p.2) := by
  rw [readQuoted]
  · exact hquote
  · exact fun h _ => hbackslash h
  · exact fun _ _ h _ => hbackslash h

theorem denoted_cons (hquote : c ≠ '"') (hbackslash : c ≠ '\\') :
    denoted (c :: rest) = (denoted rest).map (c :: ·) := by
  rw [denoted]
  · exact hquote
  · exact fun h _ => hbackslash h
  · exact fun _ _ h _ => hbackslash h

/-- A character that is no backslash at the end, and none before another character. -/
theorem ne_backslash (hlone : c = '\\' → rest = [] → False)
    (hpair : ∀ d others, c = '\\' → rest = d :: others → False) : c ≠ '\\' := by
  intro hc
  cases rest with
  | nil => exact hlone hc rfl
  | cons d others => exact hpair d others hc rfl

theorem literal_cons : Literal (c :: v) ↔ (c ≠ '"' ∧ c ≠ '\\') ∧ Literal v := by
  unfold Literal
  rw [List.mem_cons, List.mem_cons, not_or, not_or, ne_comm, ne_comm (a := c)]
  exact and_and_and_comm

/-! ## Keys -/

theorem isNamePart_of_isNameStart {c : Char} (h : isNameStart c = true) : isNamePart c = true := by
  unfold isNamePart
  rw [h]
  rfl

theorem isNamePart_of_isIdentifier (h : isIdentifier s = true) : ∀ c ∈ s, isNamePart c = true := by
  have hstart : ∀ {c : Char} {rest : List Char}, (isNameStart c && rest.all isNamePart) = true →
      ∀ d ∈ c :: rest, isNamePart d = true := by
    intro c rest h
    rw [Bool.and_eq_true, List.all_eq_true] at h
    exact List.forall_mem_cons.mpr ⟨isNamePart_of_isNameStart h.1, h.2⟩
  unfold isIdentifier at h
  split at h
  · cases h
  · rw [List.all_eq_true] at h
    exact List.forall_mem_cons.mpr ⟨rfl, List.forall_mem_cons.mpr ⟨rfl, h⟩⟩
  · exact List.forall_mem_cons.mpr ⟨rfl, hstart h⟩
  · exact hstart h

/-- The key that is read is the identifier up to the first character that is in none. -/
theorem ofText?_of_key {t : String} {c : Char} (ht : t.toList = '[' :: (s ++ c :: rest))
    (h : isIdentifier s = true) (hc : isNamePart c = false) :
    ofText? t = (readValue (c :: rest)).map fun v => ⟨String.ofList s, v⟩ := by
  have hs := isNamePart_of_isIdentifier h
  have hc' : ¬ isNamePart c = true := by
    rw [hc]
    exact Bool.false_ne_true
  have htake : (s ++ c :: rest).takeWhile isNamePart = s := by
    rw [List.takeWhile_append_of_pos hs, List.takeWhile_cons_of_neg hc', List.append_nil]
  have hdrop : (s ++ c :: rest).dropWhile isNamePart = c :: rest := by
    rw [List.dropWhile_append_of_pos hs, List.dropWhile_cons_of_neg hc']
  unfold ofText?
  rw [ht]
  simp only [htake, hdrop, h, if_true]

/-! ## Values -/

theorem closed_map (c : Char) (o : Option (List Char × List Char)) :
    closed (o.map fun p => (c :: p.1, p.2)) = (closed o).map (c :: ·) := by
  rcases o with _ | ⟨v, rest⟩
  · rfl
  · unfold closed
    simp only [Option.map_some]
    split
    · rename_i he
      cases he
      rfl
    · rename_i hne
      split
      · rename_i he
        cases he
        exact absurd rfl (hne _)
      · rfl

/-- Between its quotes a value is read up to the first quote that ends it. -/
theorem closed_readQuoted (v : List Char) : closed (readQuoted (v ++ ['"', ']'])) = denoted v := by
  fun_induction denoted v with
  | case1 => rfl
  | case2 rest =>
    -- what is left has a quote in it, so it is more than the bracket
    have hleft : rest ++ ['"', ']'] ≠ [']'] := by
      intro he
      have hlength := congrArg List.length he
      simp at hlength
    rw [List.cons_append, readQuoted]
    unfold closed
    split
    · rename_i he
      exact absurd (Prod.mk.inj (Option.some.inj he)).2 hleft
    · rfl
  | case3 => rfl
  | case4 c rest ih =>
    rw [List.cons_append, List.cons_append, readQuoted, closed_map, ih]
  | case5 c rest hquote hlone hpair ih =>
    rw [List.cons_append, readQuoted_cons hquote (ne_backslash hlone hpair), closed_map, ih]

/-- A value that means nothing special between quotes is read as it is. -/
theorem denoted_of_literal (h : Literal v) : denoted v = some v := by
  induction v with
  | nil => rfl
  | cons c v ih =>
    obtain ⟨⟨hquote, hbackslash⟩, hv⟩ := literal_cons.mp h
    rw [denoted_cons hquote hbackslash, ih hv]
    rfl

/-- Reading makes a value shorter, unless it means nothing special. -/
theorem length_of_denoted (h : denoted v = some u) :
    u.length ≤ v.length ∧ (u.length = v.length → Literal v) := by
  fun_induction denoted v generalizing u with
  | case1 => exact ⟨by cases h; exact Nat.le_refl 0, fun _ => ⟨List.not_mem_nil, List.not_mem_nil⟩⟩
  | case2 rest => cases h
  | case3 => cases h
  | case4 c rest ih =>
    obtain ⟨u, hu, rfl⟩ := Option.map_eq_some_iff.mp h
    obtain ⟨hle, -⟩ := ih hu
    simp only [List.length_cons]
    exact ⟨by omega, fun hlength => by omega⟩
  | case5 c rest hquote hlone hpair ih =>
    obtain ⟨u, hu, rfl⟩ := Option.map_eq_some_iff.mp h
    obtain ⟨hle, hliteral⟩ := ih hu
    simp only [List.length_cons]
    refine ⟨by omega, fun hlength => ?_⟩
    exact literal_cons.mpr ⟨⟨hquote, ne_backslash hlone hpair⟩, hliteral (by omega)⟩

theorem denoted_eq_self_iff : denoted v = some v ↔ Literal v := by
  constructor
  · intro h
    exact (length_of_denoted h).2 rfl
  · exact denoted_of_literal

end AttributeTest

namespace AttributeSelector

open AttributeTest (isIdentifier denoted Literal ofText?)

variable {a b : AttributeSelector}

/-! ## Selectors -/

theorem ofText?_selector (hkey : isIdentifier a.key.toList = true) (hvalue : a.value ≠ "") :
    ofText? a.selector = (denoted a.value.toList).map fun v => ⟨a.key, some (String.ofList v)⟩ := by
  have htext : a.selector.toList = '[' :: (a.key.toList ++ '=' :: '"' :: (a.value.toList ++ ['"', ']'])) := by
    unfold selector
    rw [if_neg hvalue]
    simp
  rw [AttributeTest.ofText?_of_key htext hkey (by decide), AttributeTest.readValue,
    AttributeTest.closed_readQuoted, Option.map_map, String.ofList_toList]
  rfl

/-- The selector of an attribute is read as what its value means between quotes. It is the attribute
itself that is read just if there is neither a quote nor a backslash in the value, and of two such
attributes the same is read only if they are one. -/
theorem read_selector (ha : isIdentifier a.key.toList = true ∧ a.value ≠ "")
    (hb : isIdentifier b.key.toList = true ∧ b.value ≠ "") :
    (ofText? a.selector = (denoted a.value.toList).map fun v => ⟨a.key, some (String.ofList v)⟩) ∧
    (ofText? a.selector = some ⟨a.key, some a.value⟩ ↔ Literal a.value.toList) ∧
    (Literal a.value.toList → Literal b.value.toList → ofText? a.selector = ofText? b.selector → a = b) := by
  have hread : ∀ {x : AttributeSelector}, isIdentifier x.key.toList = true ∧ x.value ≠ "" →
      (ofText? x.selector = some ⟨x.key, some x.value⟩ ↔ Literal x.value.toList) := by
    intro x hx
    rw [ofText?_selector hx.1 hx.2, ← AttributeTest.denoted_eq_self_iff]
    constructor
    · intro h
      obtain ⟨v, hv, he⟩ := Option.map_eq_some_iff.mp h
      have hvalue : String.ofList v = x.value := Option.some.inj (AttributeTest.mk.inj he).2
      rw [hv, ← hvalue, String.toList_ofList]
    · intro h
      rw [h, Option.map_some, String.ofList_toList]
  refine ⟨ofText?_selector ha.1 ha.2, hread ha, fun hla hlb he => ?_⟩
  rw [(hread ha).mpr hla, (hread hb).mpr hlb] at he
  obtain ⟨hkey, hvalue⟩ := AttributeTest.mk.inj (Option.some.inj he)
  cases a
  cases b
  rw [AttributeSelector.mk.injEq]
  exact ⟨hkey, Option.some.inj hvalue⟩

/-- Brackets, single quotes and line feeds do not matter. -/
theorem read_selector_with_brackets :
    let a : AttributeSelector := ⟨"data-variant", "x]=[y 'z'\n"⟩
    let b : AttributeSelector := ⟨"aria-label", "x\\y"⟩
    ofText? a.selector = some ⟨"data-variant", some "x]=[y 'z'\n"⟩ ∧
      ofText? b.selector = some ⟨"aria-label", some "xy"⟩ := by
  intro a b
  have ha : isIdentifier a.key.toList = true ∧ a.value ≠ "" := by decide
  have hb : isIdentifier b.key.toList = true ∧ b.value ≠ "" := by decide
  have hliteral : Literal a.value.toList := by decide
  have hdenoted : denoted b.value.toList = some "xy".toList := by decide
  refine ⟨(read_selector ha hb).2.1.mpr hliteral, ?_⟩
  rw [(read_selector hb ha).1, hdenoted]
  rfl

/-- A quote in a value leaves no selector, and a backslash leaves that of another attribute. -/
theorem selectors_misread :
    (¬ ∀ a : AttributeSelector, isIdentifier a.key.toList = true → a.value ≠ "" →
      ofText? a.selector = some ⟨a.key, some a.value⟩) ∧
    ¬ ∀ a b : AttributeSelector, isIdentifier a.key.toList = true → a.value ≠ "" →
      isIdentifier b.key.toList = true → b.value ≠ "" → ofText? a.selector = ofText? b.selector → a = b := by
  constructor
  · intro h
    have hread := h ⟨"data-variant", "a\"b"⟩ (by decide) (by decide)
    have hnone : ofText? (AttributeSelector.mk "data-variant" "a\"b").selector = none := by decide
    rw [hnone] at hread
    cases hread
  · intro h
    have hsame : ofText? (AttributeSelector.mk "data-state" "x\\y").selector =
        ofText? (AttributeSelector.mk "data-state" "xy").selector := by decide
    have heq := h ⟨"data-state", "x\\y"⟩ ⟨"data-state", "xy"⟩ (by decide) (by decide) (by decide)
      (by decide) hsame
    exact absurd heq (by decide)

end AttributeSelector

end BlockMarkup
