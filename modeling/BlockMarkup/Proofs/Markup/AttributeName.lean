import BlockMarkup.Component.Build
import BlockMarkup.Markup.Document
import BlockMarkup.Proofs.Component.PathTrie
import BlockMarkup.Proofs.Regex.Groups
import BlockMarkup.Proofs.Text.Signs

/-! # Names of attributes

The pattern for attributes allows an equals sign as the first character of a name only
(`wellNamed_of_matchAt`). All names in tokens come from that pattern, so this holds of them
(`Token.scanFrom_named`), and it is enough for the identities of attribute selectors to tell the
attributes of a document apart (`AttributeSelector.telling_wellNamed`).
-/

namespace BlockMarkup

/-- The text can be the name of an attribute: it has no equals sign behind its first character. -/
def WellNamed (name : String) : Prop := ∃ ch rest, name.toList = ch :: rest ∧ '=' ∉ rest

theorem AttributeSelector.telling_wellNamed : AttributeSelector.Telling WellNamed := by
  rintro a b ⟨ch, rest, hkey, hrest⟩ ⟨ch', rest', hkey', hrest'⟩ h
  have hlist : ch :: (rest ++ '=' :: a.value.toList) = ch' :: (rest' ++ '=' :: b.value.toList) := by
    have := congrArg String.toList h
    simpa [identity, hkey, hkey'] using this
  rcases List.cons.inj hlist with ⟨rfl, htail⟩
  -- the names end at the first equals sign
  obtain rfl : rest = rest' := by
    rw [← takeWhile_before (t := a.value.toList) hrest, htail, takeWhile_before hrest']
  have hvalue : a.value = b.value := by
    apply String.toList_injective
    simpa using htail
  rcases a with ⟨key, value⟩
  rcases b with ⟨key', value'⟩
  obtain rfl : key = key' := String.toList_injective (hkey.trans hkey'.symm)
  exact congrArg _ hvalue

namespace Markup

open BlockMarkup.Regex (CharSet Cursor Yields)
open Text (IsSign)

/-! ## The pattern -/

theorem yields_attributeName : Yields (Regex.run Pattern.attributeName) fun s u =>
    ∃ ch cs, s.after = ch :: (cs ++ u.after) ∧ '=' ∉ cs ∧ u.pos = s.pos + 1 + cs.length := by
  refine (((Regex.yields_look _ _ _).seq (Regex.yields_one _)).seq
    (Regex.yields_span _ _ _ _)).weaken ?_
  rintro s u ⟨v, ⟨v', ⟨hafter', hpos'⟩, ch, -, hafter, hpos⟩, cs, hrest, hset, hlength⟩
  refine ⟨ch, cs, ?_, ?_, by omega⟩
  · rw [← hafter', hafter, hrest]
  · intro hmem
    exact absurd (hset _ hmem) (by decide)

/-- The name of an attribute that is read has no equals sign behind its first character. -/
theorem wellNamed_of_matchAt {s : Cursor} {m : Regex.Match}
    (h : Regex.matchAt Pattern.namedValue s = some m) :
    ∃ ch cs, m.group 1 = ch :: cs ∧ '=' ∉ cs := by
  have hseq : Regex.matchAt (.seq (.group 1 Pattern.attributeName)
      (.seq (.opt (.group 2 (Pattern.attributeSign ++ .group 3 Pattern.attributeValue)))
        Pattern.tagGap)) s = some m := h
  rcases Regex.group_of_matchAt yields_attributeName (by decide) hseq with
    ⟨u, ⟨ch, cs, hafter, hcs, hpos⟩, hgroup⟩
  refine ⟨ch, cs, ?_, hcs⟩
  have hlength : u.pos - s.pos = (ch :: cs).length := by
    rw [List.length_cons, hpos, Nat.add_assoc, Nat.add_sub_cancel_left, Nat.add_comm]
  have hafter' : s.after = (ch :: cs) ++ u.after := hafter
  rw [hgroup, hlength, hafter', List.take_left]

theorem lowerOf_eq_cons (ch : Char) : ∃ ch' rest, Text.lowerOf ch = ch' :: rest ∧ '=' ∉ rest := by
  rw [Text.lowerOf]
  split
  · exact ⟨_, _, rfl, by decide⟩
  · exact ⟨_, [], rfl, by simp⟩

/-- Small letters bring no equals sign into a name. -/
theorem wellNamed_lower {ch : Char} {cs : List Char} (h : '=' ∉ cs) :
    WellNamed (Text.lower (String.ofList (ch :: cs))) := by
  have hrest : '=' ∉ Text.lowerFrom [ch] cs := by
    have hsign : IsSign '=' := by decide
    exact fun hmem => h (hsign.uncased.mem_of_mem_lowerFrom _ _ hmem)
  obtain ⟨ch', rest, hfirst, hfirst'⟩ : ∃ ch' rest,
      (if ch.toNat = 0x3a3 then
        [Char.ofNat (if Text.casedNext [] && !Text.casedNext cs then 0x3c2 else 0x3c3)]
      else Text.lowerOf ch) = ch' :: rest ∧ '=' ∉ rest := by
    split
    · exact ⟨_, [], rfl, by simp⟩
    · exact lowerOf_eq_cons ch
  refine ⟨ch', rest ++ Text.lowerFrom [ch] cs, ?_, ?_⟩
  · rw [Text.lower, Text.lowerChars, String.toList_ofList, String.toList_ofList, Text.lowerFrom,
      hfirst, List.cons_append]
  · rw [List.mem_append, not_or]
    exact ⟨hfirst', hrest⟩

/-! ## Tokens -/

/-- All attributes have names that the pattern allows. -/
def NamedAttributes (as : Attributes) : Prop := ∀ a ∈ as, WellNamed a.1

theorem NamedAttributes.set {name value : String} (hname : WellNamed name) {as : Attributes}
    (h : NamedAttributes as) : NamedAttributes (setAttribute name value as) := by
  induction as with
  | nil => simpa [NamedAttributes, setAttribute] using hname
  | cons a rest ih =>
    rcases a with ⟨n, v⟩
    rw [NamedAttributes, List.forall_mem_cons] at h
    rw [setAttribute]
    split
    · exact List.forall_mem_cons.mpr h
    · exact List.forall_mem_cons.mpr ⟨h.1, ih h.2⟩

namespace Token

/-- The attributes of a tag. -/
def attributes : Token → Attributes
  | .startTag _ as | .emptyTag _ as => as
  | _ => []

/-- All tags have attributes with names that the pattern allows. -/
def AllNamed (ts : List Token) : Prop := ∀ t ∈ ts, NamedAttributes t.attributes

theorem allNamed_singleton {t : Token} (h : t.attributes = []) : AllNamed [t] := by
  intro u hu
  rw [List.mem_singleton.mp hu, h]
  simp [NamedAttributes]

theorem AllNamed.append {ts us : List Token} (ht : AllNamed ts) (hu : AllNamed us) :
    AllNamed (ts ++ us) :=
  List.forall_mem_append.mpr ⟨ht, hu⟩

theorem AllNamed.reverse {ts : List Token} (h : AllNamed ts) : AllNamed ts.reverse :=
  fun t ht => h t (List.mem_reverse.mp ht)

theorem readAttributes_named (stop fuel : Nat) (found : Attributes) (s : Cursor)
    (h : NamedAttributes found) : NamedAttributes (readAttributes stop fuel found s).1 := by
  induction fuel generalizing found s with
  | zero => exact h
  | succ fuel ih =>
    rw [readAttributes]
    split
    · split
      · exact h
      · rename_i m hm
        rcases wellNamed_of_matchAt hm with ⟨ch, cs, hgroup, hcs⟩
        refine ih _ _ (h.set ?_)
        rw [hgroup]
        exact wellNamed_lower hcs
    · exact h

/-- What a step of cutting hands on has tags with such attributes only. -/
def StepNamed (r : Step) : Prop := ∀ ts rest, r = some (ts, rest) → AllNamed ts

theorem readStartTag_named (s : Cursor) : StepNamed (readStartTag s) := by
  intro ts rest h
  rcases Option.bind_eq_some_iff.mp h with ⟨stop, _, h⟩
  rcases Option.bind_eq_some_iff.mp h with ⟨m, _, h⟩
  have hnamed := readAttributes_named stop.pos (s.after.length + 1) [] m.stop
    (by simp [NamedAttributes])
  dsimp only at h
  generalize readAttributes stop.pos (s.after.length + 1) [] m.stop = found at h hnamed
  split at h
  · cases h
    simpa [AllNamed, attributes] using hnamed
  · split at h
    · cases h
      simpa [AllNamed, attributes] using hnamed
    · cases h
      exact allNamed_singleton rfl

theorem readEndTag_named (s : Cursor) : StepNamed (readEndTag s) := by
  intro ts rest h
  rcases Option.bind_eq_some_iff.mp h with ⟨stop, _, h⟩
  split at h
  · cases h
    exact allNamed_singleton rfl
  · split at h
    · rcases Option.bind_eq_some_iff.mp h with ⟨stop, _, h⟩
      cases h
      exact allNamed_singleton rfl
    · dsimp only at h
      split at h
      · cases h
        simp [AllNamed]
      · cases h
        exact allNamed_singleton rfl

theorem readToAngle_named (skip : Nat) (make : List Char → Token) (s : Cursor)
    (hmake : ∀ t, (make t).attributes = []) : StepNamed (readToAngle skip make s) := by
  intro ts rest h
  rcases Option.bind_eq_some_iff.mp h with ⟨stop, _, h⟩
  cases h
  exact allNamed_singleton (hmake _)

theorem readComment_named (s : Cursor) : StepNamed (readComment s) := by
  intro ts rest h
  rcases Option.bind_eq_some_iff.mp h with ⟨m, _, h⟩
  cases h
  exact allNamed_singleton rfl

theorem readSection_named {s : Cursor} {r : Step} (h : readSection s = .ok r) : StepNamed r := by
  have hupTo : ∀ e : Regex, StepNamed ((search? e (s.advance 3)).map fun m =>
      ([.section ((s.advance 3).textTo m.start)], m.stop)) := by
    intro e ts rest h
    rcases Option.map_eq_some_iff.mp h with ⟨m, _, h⟩
    cases h
    exact allNamed_singleton rfl
  have hnone : StepNamed none := fun _ _ h => by cases h
  rw [readSection] at h
  dsimp only at h
  split at h
  · cases h
    exact hnone
  · split at h
    · cases h
    · split at h
      · cases h
        exact hnone
      · split at h
        · cases h
          exact hupTo _
        · split at h
          · cases h
            exact hupTo _
          · cases h

theorem readDeclaration_named {s : Cursor} {r : Step} (h : readDeclaration s = .ok r) :
    StepNamed r := by
  rw [readDeclaration] at h
  split at h
  · exact readSection_named h
  · split at h
    · cases h
      intro ts rest h
      rcases Option.bind_eq_some_iff.mp h with ⟨stop, _, h⟩
      cases h
      exact allNamed_singleton rfl
    · cases h
      exact readToAngle_named _ _ _ fun _ => rfl

theorem readTag_named {s : Cursor} {r : Step} (h : readTag s = .ok r) : StepNamed r := by
  rw [readTag] at h
  split at h
  · cases h
    exact readEndTag_named s
  · cases h
    exact readComment_named s
  · cases h
    exact readToAngle_named _ _ _ fun _ => rfl
  · exact readDeclaration_named h
  · cases h
    split
    · exact readStartTag_named s
    · intro ts rest h
      cases h
      exact allNamed_singleton rfl
  · cases h
    exact fun _ _ h => by cases h

theorem readReference_named (s : Cursor) : StepNamed (readReference s) := by
  have hnumeric : StepNamed (readNumericReference s) := by
    intro ts rest h
    rw [readNumericReference] at h
    dsimp only at h
    split at h
    · cases h
    · rcases Option.ite_none_left_eq_some.mp h with ⟨_, h⟩
      cases h
      exact allNamed_singleton rfl
  have hnamed : StepNamed (readNamedReference s) := by
    intro ts rest h
    rcases Option.ite_none_left_eq_some.mp h with ⟨_, h⟩
    cases h
    exact allNamed_singleton rfl
  rw [readReference]
  split
  · exact hnumeric
  · split
    · exact hnamed
    · intro ts rest h
      cases h
      exact allNamed_singleton rfl
  · exact fun _ _ h => by cases h

theorem leftover_named (s : Cursor) : AllNamed (leftover s) := by
  rw [leftover]
  split
  · simp [AllNamed]
  · split <;> exact allNamed_singleton rfl
  · exact allNamed_singleton rfl

theorem readRaw_named {name : String} {s : Cursor} {ts : List Token} {rest : Cursor}
    {raw : Option String} (h : readRaw name s = some (ts, rest, raw)) : AllNamed ts := by
  rcases Option.bind_eq_some_iff.mp h with ⟨m, _, h⟩
  have hlead : AllNamed (if (s.textTo m.start).isEmpty then []
      else [Token.text (s.textTo m.start)]) := by
    split
    · simp [AllNamed]
    · exact allNamed_singleton rfl
  dsimp only at h
  split at h
  · split at h
    · cases h
      exact hlead.append (allNamed_singleton rfl)
    · cases h
      exact hlead.append (allNamed_singleton rfl)
  · cases h
    exact hlead.append (allNamed_singleton rfl)

/-- Cutting keeps what is known of the tokens so far. -/
theorem scanFrom_named (fuel : Nat) (final : Bool) (raw : Option String) (out : List Token)
    (s : Cursor) (hout : AllNamed out) :
    ∀ ts, scanFrom fuel final raw out s = .ok ts → AllNamed ts := by
  induction fuel generalizing final raw out s with
  | zero =>
    intro ts h
    cases h
    exact hout.reverse
  | succ fuel ih =>
    intro ts h
    cases raw with
    | some name =>
      rw [scanFrom] at h
      split at h
      · cases h
        exact hout.reverse
      · rename_i hraw
        exact ih _ _ _ _ ((readRaw_named hraw).reverse.append hout) _ h
    | none =>
      rw [scanFrom] at h
      split at h
      · cases h
        exact hout.reverse
      · -- at an angle: an error, a tag, or a tag that cannot be completed
        split at h
        · cases h
        · rename_i hstep
          exact ih _ _ _ _ ((readTag_named hstep _ _ rfl).reverse.append hout) _ h
        · split at h
          · exact ih _ _ _ _ hout _ h
          · split at h
            · cases h
              exact ((leftover_named s).reverse.append hout).reverse
            · exact ih _ _ _ _ ((allNamed_singleton rfl).reverse.append hout) _ h
      · split at h
        · rename_i hstep
          exact ih _ _ _ _ ((readReference_named s _ _ hstep).reverse.append hout) _ h
        · -- of a reference that is not complete, the mark may be text
          rename_i more _ _ _
          dsimp only at h
          have hmark : AllNamed (if more.head? = some '#' ∧ s.after.contains ';' = true then
              ([Token.text ['&', '#']], s.advance 2) else ([], s)).1 := by
            split
            · exact allNamed_singleton rfl
            · simp [AllNamed]
          have hout' := hmark.reverse.append hout
          split at h
          · cases h
            exact ((leftover_named _).reverse.append hout').reverse
          · exact ih _ _ _ _ hout' _ h
      · exact ih _ _ _ _ ((allNamed_singleton rfl).reverse.append hout) _ h

end Token

end Markup

end BlockMarkup
