import BlockMarkup.Proofs.Result
import BlockMarkup.Selector.Policy
import Mathlib.Data.List.DropRight

/-! # Attribute keys of a policy

Each key of a list is a configured text without the blanks at its ends (`readKeys_eq_ok_iff`). One item
that is no text, or a blank one, makes the whole list unusable (`exists_readKeyList_iff`); no list and an
empty list give the default (`readKeyList_eq_ok_iff`). So there is always a key, and no key is blank
(`GivesKeys.isKeyList`, `GivesStateKey.isKey`).
-/

namespace BlockMarkup

namespace Text

variable {cs : List Char} {s : String}

/-! ## Texts without blanks at their ends -/

theorem trim_eq (cs : List Char) : trim cs = (trimLeft cs).rdropWhile isBlank := rfl

/-- Nothing is trimmed twice: what is left begins as it did before the end was trimmed. -/
theorem trim_trim (cs : List Char) : trim (trim cs) = trim cs := by
  have hstart : trimLeft (trim cs) = trim cs := by
    refine List.dropWhile_eq_self_iff.mpr fun hlength => ?_
    have hend : trim cs <+: trimLeft cs := List.rdropWhile_prefix isBlank _
    rw [hend.getElem hlength]
    exact List.dropWhile_get_zero_not isBlank cs (hend.length_le.trans_lt' hlength)
  rw [trim_eq (trim cs), hstart, trim_eq]
  exact List.rdropWhile_idempotent _ _

theorem trim_eq_nil_iff : trim cs = [] ↔ ∀ c ∈ cs, isBlank c = true := by
  rw [trim_eq, List.rdropWhile_eq_nil_iff, ← List.dropWhile_eq_nil_iff, ← List.dropWhile_eq_nil_iff]
  exact iff_of_eq (congrArg (· = []) (List.dropWhile_idempotent _ _))

theorem trimmed_trimmed (s : String) : trimmed (trimmed s) = trimmed s := by
  rw [trimmed, trimmed, String.toList_ofList, trim_trim]

theorem allBlank_trimmed (s : String) : allBlank (trimmed s) = allBlank s := by
  rw [allBlank, allBlank, trimmed, String.toList_ofList, Bool.eq_iff_iff, List.all_eq_true,
    List.all_eq_true, ← trim_eq_nil_iff, ← trim_eq_nil_iff, trim_trim]

end Text

namespace SelectorPolicy

variable {axis : Axis} {fallback keys : List String} {items : List Json} {raw : Option Json}
  {e : PolicyError} {k : String}

/-- A text that an attribute can be looked up by: not blank, and without blanks at its ends. -/
structure IsKey (k : String) : Prop where
  trimmed : Text.trimmed k = k
  notBlank : Text.allBlank k = false

instance (k : String) : Decidable (IsKey k) :=
  decidable_of_iff (Text.trimmed k = k ∧ Text.allBlank k = false)
    ⟨fun h => ⟨h.1, h.2⟩, fun h => ⟨h.trimmed, h.notBlank⟩⟩

theorem isKey_trimmed {s : String} (h : Text.allBlank s = false) : IsKey (Text.trimmed s) :=
  ⟨Text.trimmed_trimmed s, (Text.allBlank_trimmed s).trans h⟩

/-- There is a key, and all are usable. -/
def IsKeyList (keys : List String) : Prop := keys ≠ [] ∧ ∀ k ∈ keys, IsKey k

instance (keys : List String) : Decidable (IsKeyList keys) := inferInstanceAs (Decidable (_ ∧ _))

/-! ## Lists of keys -/

/-- An item that a key can be read from. -/
def GivesKey (item : Json) : Prop := ∃ s, item = .str s ∧ Text.allBlank s = false

/-- The keys are the items without the blanks at their ends, if these are texts and none is blank. -/
theorem readKeys_eq_ok_iff : readKeys axis items = .ok keys ↔
    ∃ texts : List String, items = texts.map .str ∧ (∀ s ∈ texts, Text.allBlank s = false) ∧
      keys = texts.map Text.trimmed := by
  induction items generalizing keys with
  | nil =>
    rw [readKeys, Except.ok.injEq]
    constructor
    · rintro rfl
      exact ⟨[], rfl, by simp, rfl⟩
    · rintro ⟨texts, htexts, -, rfl⟩
      rw [List.map_eq_nil_iff.mp htexts.symm]
      rfl
  | cons item items ih =>
    cases item with
    | str s =>
      rw [readKeys]
      split
      · rename_i hblank
        refine iff_of_false (fun h => by cases h) ?_
        rintro ⟨texts, htexts, htext, -⟩
        obtain ⟨t, texts, rfl, ht, -⟩ := List.map_eq_cons_iff.mp htexts.symm
        cases ht
        rw [htext s List.mem_cons_self] at hblank
        cases hblank
      · rename_i hblank
        rw [Bool.not_eq_true] at hblank
        simp only [map_eq_ok, ih]
        constructor
        · rintro ⟨_, ⟨texts, rfl, htexts, rfl⟩, rfl⟩
          exact ⟨s :: texts, rfl, List.forall_mem_cons.mpr ⟨hblank, htexts⟩, rfl⟩
        · rintro ⟨texts, htexts, htext, rfl⟩
          obtain ⟨t, texts, rfl, ht, rfl⟩ := List.map_eq_cons_iff.mp htexts.symm
          cases ht
          exact ⟨_, ⟨texts, rfl, (List.forall_mem_cons.mp htext).2, rfl⟩, rfl⟩
    | null | bool | int | float | arr | obj =>
      refine iff_of_false (fun h => by cases h) ?_
      rintro ⟨texts, htexts, -⟩
      obtain ⟨t, texts, -, ht, -⟩ := List.map_eq_cons_iff.mp htexts.symm
      cases ht

theorem exists_readKeys_iff :
    (∃ keys, readKeys axis items = .ok keys) ↔ ∀ item ∈ items, GivesKey item := by
  simp only [readKeys_eq_ok_iff]
  constructor
  · rintro ⟨_, texts, rfl, htexts, -⟩
    rw [List.forall_mem_map]
    exact fun s hs => ⟨s, rfl, htexts s hs⟩
  · intro h
    choose! text htext using h
    refine ⟨_, items.map text, ?_, ?_, rfl⟩
    · rw [List.map_map]
      exact (List.map_id' items).symm.trans (List.map_congr_left fun item hitem => (htext item hitem).1)
    · rw [List.forall_mem_map]
      exact fun item hitem => (htext item hitem).2

theorem readKeys_error (h : readKeys axis items = .error e) : e = .keyList axis := by
  induction items with
  | nil => cases h
  | cons item items ih =>
    cases item with
    | str s =>
      rw [readKeys] at h
      split at h
      · exact (Except.error.inj h).symm
      · exact ih (map_eq_error.mp h)
    | null | bool | int | float | arr | obj => exact (Except.error.inj h).symm

/-- The list is given, but it is no list of texts that are not blank. -/
def BadKeyList (raw : Option Json) : Prop :=
  ∃ v ∈ raw, v ≠ .null ∧ ∀ items, v = .arr items → ∃ item ∈ items, ¬ GivesKey item

/-- The keys are those that the list gives; no list and an empty one give the default. -/
def GivesKeys (raw : Option Json) (fallback keys : List String) : Prop :=
  (raw = none ∨ raw = some .null ∨ raw = some (.arr [])) ∧ keys = fallback ∨
    ∃ texts : List String, raw = some (.arr (texts.map .str)) ∧ texts ≠ [] ∧
      (∀ s ∈ texts, Text.allBlank s = false) ∧ keys = texts.map Text.trimmed

theorem readKeyList_eq_ok_iff :
    readKeyList axis fallback raw = .ok keys ↔ GivesKeys raw fallback keys := by
  -- nothing given, null and an empty list all mean the keys to fall back on
  have hdefault : ∀ {raw : Option Json}, (raw = none ∨ raw = some .null ∨ raw = some (.arr [])) →
      ((.ok fallback : Except PolicyError (List String)) = .ok keys ↔ GivesKeys raw fallback keys) := by
    intro raw hraw
    constructor
    · intro h
      exact Or.inl ⟨hraw, (Except.ok.inj h).symm⟩
    · rintro (⟨-, rfl⟩ | ⟨texts, htexts, hne, -⟩)
      · rfl
      · rcases hraw with rfl | rfl | rfl
        · cases htexts
        · cases htexts
        · have hnil := (Json.arr.inj (Option.some.inj htexts)).symm
          exact absurd (List.map_eq_nil_iff.mp hnil) hne
  unfold readKeyList
  split
  · exact hdefault (Or.inl rfl)
  · exact hdefault (Or.inr (Or.inl rfl))
  · exact hdefault (Or.inr (Or.inr rfl))
  · rename_i items hne
    have hitems : items ≠ [] := fun h => hne h
    rw [readKeys_eq_ok_iff]
    constructor
    · rintro ⟨texts, rfl, htexts⟩
      exact Or.inr ⟨texts, rfl, by simpa using hitems, htexts⟩
    · rintro (⟨hnone | hnull | hnil, -⟩ | ⟨texts, hitems, -, htexts⟩)
      · cases hnone
      · cases hnull
      · cases hnil
        exact absurd rfl hne
      · cases hitems
        exact ⟨texts, rfl, htexts⟩
  · rename_i v hnull hnil hlist
    refine iff_of_false (fun h => by cases h) ?_
    rintro (⟨hnone | hv | hv, -⟩ | ⟨texts, hv, -⟩)
    · cases hnone
    · exact hnull (Option.some.inj hv)
    · exact hlist _ (Option.some.inj hv)
    · exact hlist _ (Option.some.inj hv)

theorem badKeyList_arr_iff : BadKeyList (some (.arr items)) ↔ ∃ item ∈ items, ¬ GivesKey item := by
  constructor
  · rintro ⟨v, hv, -, hitems⟩
    exact hitems items (Option.mem_some.mp hv).symm
  · rintro hitem
    refine ⟨.arr items, rfl, (by rintro ⟨⟩), ?_⟩
    rintro items ⟨⟩
    exact hitem

/-- Reading a list fails just if it is given and unusable. -/
theorem exists_readKeyList_iff :
    (∃ keys, readKeyList axis fallback raw = .ok keys) ↔ ¬ BadKeyList raw := by
  unfold readKeyList
  split
  · refine iff_of_true ⟨_, rfl⟩ ?_
    rintro ⟨v, hv, -⟩
    cases hv
  · refine iff_of_true ⟨_, rfl⟩ ?_
    rintro ⟨v, hv, hnull, -⟩
    exact hnull (Option.mem_some.mp hv).symm
  · simp [badKeyList_arr_iff]
  · rw [exists_readKeys_iff, badKeyList_arr_iff]
    push Not
    rfl
  · rename_i v hnull _ hlist
    refine iff_of_false (by rintro ⟨keys, h⟩; cases h) (not_not.mpr ⟨v, rfl, ?_, ?_⟩)
    · rintro rfl
      exact hnull rfl
    · rintro items rfl
      exact absurd rfl (hlist items)

theorem readKeyList_error (h : readKeyList axis fallback raw = .error e) : e = .keyList axis := by
  unfold readKeyList at h
  split at h
  · cases h
  · cases h
  · cases h
  · exact readKeys_error h
  · exact (Except.error.inj h).symm

/-- So there is a key, and each is usable. -/
theorem GivesKeys.isKeyList (h : GivesKeys raw fallback keys) (hfallback : IsKeyList fallback) :
    IsKeyList keys := by
  rcases h with ⟨-, rfl⟩ | ⟨texts, -, hne, htexts, rfl⟩
  · exact hfallback
  · refine ⟨by simpa using hne, ?_⟩
    rw [List.forall_mem_map]
    exact fun s hs => isKey_trimmed (htexts s hs)

/-! ## The key of states -/

/-- The key is the given one; anything but a text, and a blank one, gives the default. -/
def GivesStateKey (raw : Option Json) (k : String) : Prop :=
  (∃ s, raw = some (.str s) ∧ Text.allBlank s = false ∧ k = Text.trimmed s) ∨
    (∀ s, raw = some (.str s) → Text.allBlank s = true) ∧ k = "data-state"

theorem givesStateKey_readStateKey (raw : Option Json) : GivesStateKey raw (readStateKey raw) := by
  unfold readStateKey
  split
  · rename_i s
    split
    · rename_i hblank
      refine Or.inr ⟨?_, rfl⟩
      rintro t ⟨⟩
      exact hblank
    · rename_i hblank
      exact Or.inl ⟨s, rfl, Bool.not_eq_true _ ▸ hblank, rfl⟩
  · rename_i hnone
    exact Or.inr ⟨fun s hs => absurd hs (hnone s), rfl⟩

theorem GivesStateKey.isKey (h : GivesStateKey raw k) : IsKey k := by
  rcases h with ⟨s, -, hs, rfl⟩ | ⟨-, rfl⟩
  · exact isKey_trimmed hs
  · decide

end SelectorPolicy

end BlockMarkup
