import Mathlib.Data.List.Nodup
import BlockMarkup.Proofs.Markup.Pieces

/-! # Attributes that are read back

Writing an element sorts its attributes, and gives one of them another name where the class
attribute has been held under the internal name. Reading puts names in lower case and keeps the last
of equal ones. Where the names are distinct and in lower case (`Settled`), all of this is renaming
and nothing else (`Settled.readBack_renameKeys`), and every value is found where it was
(`lookup_arranged`).
-/

namespace BlockMarkup.Markup

open Node (arranged)
open ClassAttribute (internalName)
open Token (readBack)

variable {as bs : Attributes} {key name source target value : String} {keys : List String}

/-! ## Values -/

/-- The order of attributes with distinct names does not matter. -/
theorem lookup_eq_of_perm (h : as.Perm bs) (hn : (as.map Prod.fst).Nodup) :
    as.lookup key = bs.lookup key := by
  induction h with
  | nil => rfl
  | cons a _ ih =>
    rw [List.map_cons, List.nodup_cons] at hn
    rw [List.lookup_cons, List.lookup_cons, ih hn.2]
  | swap a b rest =>
    rcases a with ⟨k, v⟩
    rcases b with ⟨l, w⟩
    rw [List.map_cons, List.map_cons, List.nodup_cons] at hn
    have hne : l ≠ k := fun heq => hn.1 (heq ▸ List.mem_cons_self)
    simp only [List.lookup_cons]
    by_cases hk : key = k
    · have hl : (key == l) = false := beq_eq_false_iff_ne.mpr fun hl => hne (hl.symm.trans hk)
      rw [hl]
    · rw [beq_eq_false_iff_ne.mpr hk]
  | trans h₁ _ ih₁ ih₂ =>
    exact (ih₁ hn).trans (ih₂ (((h₁.map Prod.fst).nodup_iff).mp hn))

theorem lookup_map_value {f : String × String → String} (h : ∀ v, f (key, v) = v) :
    (as.map fun a => (a.1, f a)).lookup key = as.lookup key := by
  induction as with
  | nil => rfl
  | cons a rest ih =>
    rw [List.map_cons, List.lookup_cons, List.lookup_cons, ih]
    by_cases ha : key = a.1
    · subst ha
      simp [h]
    · simp [beq_eq_false_iff_ne.mpr ha]

theorem map_fst_map_value {f : String × String → String} :
    (as.map fun a => (a.1, f a)).map Prod.fst = as.map Prod.fst := by
  rw [List.map_map]
  rfl

/-- The declared encoding stands in one of two attributes. -/
theorem exists_declaredAttributes (name : String) (as : Attributes) :
    ∃ f : String × String → String, declaredAttributes name as = as.map (fun a => (a.1, f a)) ∧
      ∀ key v, key ≠ "charset" → key ≠ "content" → f (key, v) = v := by
  have hself : as = as.map fun a => (a.1, a.2) := by simp
  rw [declaredAttributes]
  dsimp only
  split
  · exact ⟨Prod.snd, hself, fun _ _ _ _ => rfl⟩
  · split
    · refine ⟨fun a => if a.1 = "charset" then "utf-8" else a.2, ?_, fun key v h _ => if_neg h⟩
      refine List.map_congr_left fun a _ => ?_
      rcases a with ⟨k, v⟩
      dsimp only
      split <;> rfl
    · split
      · refine ⟨fun a => if a.1 = "content" then String.ofList (charsetPattern.replaceAll
          (fun m => m.group 1 ++ "utf-8".toList) a.2.toList) else a.2, ?_,
            fun key v _ h => if_neg h⟩
        refine List.map_congr_left fun a _ => ?_
        rcases a with ⟨k, v⟩
        dsimp only
        split <;> rfl
      · exact ⟨Prod.snd, hself, fun _ _ _ _ => rfl⟩

theorem keys_arranged : ((arranged name as).map Prod.fst).Perm (as.map Prod.fst) := by
  obtain ⟨f, hf, -⟩ := exists_declaredAttributes name as
  rw [arranged, hf]
  refine ((List.mergeSort_perm _ _).map Prod.fst).trans ?_
  rw [map_fst_map_value]

theorem lookup_arranged_of_declared (hn : (as.map Prod.fst).Nodup)
    (h : declaredAttributes name as = as) : (arranged name as).lookup key = as.lookup key := by
  rw [arranged, h]
  have hsorted := List.mergeSort_perm as attributeLE
  exact lookup_eq_of_perm hsorted (((hsorted.map Prod.fst).nodup_iff).mpr hn)

theorem lookup_arranged (hn : (as.map Prod.fst).Nodup) (hcharset : key ≠ "charset")
    (hcontent : key ≠ "content") : (arranged name as).lookup key = as.lookup key := by
  have hsorted : (arranged name as).lookup key = (declaredAttributes name as).lookup key :=
    lookup_eq_of_perm (List.mergeSort_perm _ _) (keys_arranged.nodup_iff.mpr hn)
  obtain ⟨f, hf, hsame⟩ := exists_declaredAttributes name as
  rw [hsorted, hf, lookup_map_value fun v => hsame key v hcharset hcontent]

/-! ## Names -/

theorem map_fst_renameKeys : (renameKeys keys target as).map Prod.fst =
    (as.map Prod.fst).map fun k => if keys.contains k then target else k := by
  rw [renameKeys, List.map_map, List.map_map]
  rfl

theorem renameKeys_self : renameKeys [target] target as = as := by
  rw [renameKeys]
  refine (List.map_congr_left fun a _ => ?_).trans as.map_id
  by_cases h : a.1 = target
  · simp [← h]
  · simp [h]

/-- A name that has not been there before is replaced by the former one again. -/
theorem renameKeys_renameKeys (h : target ∉ as.map Prod.fst) :
    renameKeys [target] source (renameKeys [source] target as) = as := by
  rw [renameKeys, renameKeys, List.map_map]
  refine (List.map_congr_left fun a ha => ?_).trans as.map_id
  have hne : a.1 ≠ target := fun heq => h (heq ▸ List.mem_map_of_mem ha)
  by_cases hsource : a.1 = source
  · simp [← hsource]
  · simp [hsource, hne]

theorem lookup_renameKeys_of_ne (hkeys : key ∉ keys) (h : key ≠ target) :
    (renameKeys keys target as).lookup key = as.lookup key := by
  induction as with
  | nil => rfl
  | cons a rest ih =>
    rw [renameKeys, List.map_cons, ← renameKeys, List.lookup_cons, List.lookup_cons, ih]
    by_cases ha : keys.contains a.1 = true
    · have hne : key ≠ a.1 := by
        rintro rfl
        exact hkeys (by simpa using ha)
      rw [if_pos ha, beq_eq_false_iff_ne.mpr h, beq_eq_false_iff_ne.mpr hne]
    · rw [if_neg ha]

theorem lookup_renameKeys_source (hkeys : key ∈ keys) (h : key ≠ target) :
    (renameKeys keys target as).lookup key = none := by
  rw [List.lookup_eq_none_iff]
  intro a ha
  obtain ⟨b, -, rfl⟩ := List.mem_map.mp ha
  rw [bne_iff_ne]
  dsimp only
  split
  · exact h
  · rename_i hb
    rintro rfl
    exact hb (by simpa using hkeys)

/-- The value under the new name is that under the old one, if there is one. -/
theorem lookup_renameKeys_target (hne : source ≠ target)
    (hn : ((renameKeys [source] target as).map Prod.fst).Nodup) :
    (renameKeys [source] target as).lookup target =
      (as.lookup source).or (as.lookup target) := by
  induction as with
  | nil => rfl
  | cons a rest ih =>
    rw [renameKeys, List.map_cons, ← renameKeys] at hn ⊢
    rw [List.map_cons, List.nodup_cons] at hn
    rw [List.lookup_cons, List.lookup_cons, List.lookup_cons]
    by_cases hsource : a.1 = source
    · simp [hsource]
    · by_cases htarget : a.1 = target
      · -- no other attribute becomes the target
        have hnone : rest.lookup source = none := by
          rw [List.lookup_eq_none_iff]
          intro b hb
          rw [bne_iff_ne]
          intro hbs
          refine hn.1 (List.mem_map.mpr ⟨(target, b.2), ?_, ?_⟩)
          · exact List.mem_map.mpr ⟨b, hb, by simp [← hbs]⟩
          · simp [htarget]
        simp [htarget, Ne.symm hne, hnone, beq_eq_false_iff_ne.mpr hne]
      · simp [hsource, beq_eq_false_iff_ne.mpr (Ne.symm hsource),
          beq_eq_false_iff_ne.mpr (Ne.symm htarget), ih hn.2]

/-! ## Reading back -/

theorem setAttribute_of_not_mem (h : name ∉ as.map Prod.fst) :
    setAttribute name value as = as ++ [(name, value)] := by
  induction as with
  | nil => rfl
  | cons a rest ih =>
    rw [List.map_cons, List.mem_cons, not_or] at h
    rw [setAttribute, if_neg (Ne.symm h.1), ih h.2]
    rfl

theorem foldl_setAttribute (bs : Attributes) (h : (bs.map Prod.fst ++ as.map fun a => Text.lower a.1).Nodup) :
    as.foldl (fun found a => setAttribute (Text.lower a.1) a.2 found) bs =
      bs ++ as.map fun a => (Text.lower a.1, a.2) := by
  induction as generalizing bs with
  | nil => simp
  | cons a rest ih =>
    have hnot : Text.lower a.1 ∉ bs.map Prod.fst := by
      intro hmem
      rw [List.nodup_append] at h
      exact h.2.2 _ hmem _ List.mem_cons_self rfl
    rw [List.foldl_cons, setAttribute_of_not_mem hnot, ih]
    · simp
    · simpa using h

/-- Attributes with distinct names are read back with their names in lower case. -/
theorem readBack_of_nodup (h : (as.map fun a => Text.lower a.1).Nodup) :
    readBack as = as.map fun a => (Text.lower a.1, a.2) :=
  foldl_setAttribute [] h

/-- The names of attributes, distinct and in lower case even if the internal one is replaced. -/
structure Settled (target : String) (as : Attributes) : Prop where
  lower : ∀ key ∈ as.map Prod.fst, Text.lower key = key
  nodup : ((renameKeys [internalName] target as).map Prod.fst).Nodup

instance (target : String) (as : Attributes) : Decidable (Settled target as) :=
  decidable_of_iff ((∀ key ∈ as.map Prod.fst, Text.lower key = key) ∧
    ((renameKeys [internalName] target as).map Prod.fst).Nodup)
    ⟨fun h => ⟨h.1, h.2⟩, fun h => ⟨h.lower, h.nodup⟩⟩

namespace Settled

theorem nodup_keys (h : Settled target as) : (as.map Prod.fst).Nodup := by
  have hn := h.nodup
  rw [map_fst_renameKeys] at hn
  exact List.Nodup.of_map _ hn

theorem arranged (h : Settled target as) : Settled target (arranged name as) := by
  constructor
  · intro key hkey
    exact h.lower key (keys_arranged.mem_iff.mp hkey)
  · have hn := h.nodup
    rw [map_fst_renameKeys] at hn ⊢
    exact ((keys_arranged.map _).nodup_iff).mpr hn

/-- Read back, the attributes have the new name in lower case in place of the internal one. -/
theorem readBack_renameKeys (h : Settled (Text.lower target) as) :
    readBack (renameKeys [internalName] target as) =
      renameKeys [internalName] (Text.lower target) as := by
  have hlower : (renameKeys [internalName] target as).map (fun a => (Text.lower a.1, a.2)) =
      renameKeys [internalName] (Text.lower target) as := by
    rw [renameKeys, renameKeys, List.map_map]
    refine List.map_congr_left fun a ha => ?_
    have hkey := h.lower a.1 (List.mem_map_of_mem ha)
    simp only [Function.comp_apply]
    split
    · rfl
    · rw [hkey]
  rw [readBack_of_nodup, hlower]
  have hn := h.nodup
  rw [← hlower, List.map_map] at hn
  exact hn

end Settled

end BlockMarkup.Markup
