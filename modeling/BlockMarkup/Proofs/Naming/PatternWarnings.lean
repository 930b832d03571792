import Mathlib.Data.List.Nodup
import BlockMarkup.Naming.PatternWarning
import BlockMarkup.Proofs.Naming.UsableOptions

/-! # Warnings about patterns that are left out

A pattern that is given but not used is told about, and no other one, as long as the patterns stand under
`customPatterns` (`reported_iff`). Under the other name of the setting, which the options accept too, nothing
is told: there the warnings are right only if nothing is left out (`reportsAll_iff`).
-/

namespace BlockMarkup

variable {v : Json} {key : String} {members patterns : List (String × Json)} {c : CustomPatterns}
  {n : NamingOptions} {ws : List PatternWarning} {w : PatternWarning} {field : String × Option CustomPattern}

namespace CustomPattern

/-- Flags that are told about apart are no flags that can be used. -/
theorem coerce_of_hasStatefulFlags (h : PatternWarning.hasStatefulFlags v = true) : coerce v = .ok none := by
  cases v with
  | str s =>
    have hcoerce : coerce (.str s) = ofText s := rfl
    have hstateful : PatternWarning.hasStatefulFlags (.str s) =
        (literalParts? s.toList).any fun parts => parts.2.contains 'g' || parts.2.contains 'y' := rfl
    rw [hstateful] at h
    rw [hcoerce, ofText_eq]
    have hwritten : written? s = none := by
      unfold written?
      cases hparts : literalParts? s.toList with
      | none =>
        rw [hparts] at h
        cases h
      | some parts =>
        rw [hparts] at h
        -- such a flag is neither of the two that may be given
        have hflags : ¬ (parts.2.all fun c => c == 'i' || c == 'u') = true := by
          intro hall
          rw [List.all_eq_true] at hall
          rcases Bool.or_eq_true_iff.mp h with hg | hy
          · exact absurd (hall 'g' (List.contains_iff_mem.mp hg)) (by decide)
          · exact absurd (hall 'y' (List.contains_iff_mem.mp hy)) (by decide)
        dsimp only
        rw [if_neg hflags, ite_self]
    rw [hwritten]
  | _ => rfl

end CustomPattern

/-- A pattern is given, but the options do without it. -/
def CustomPatterns.LeftOut (patterns : List (String × Json)) (field : String × Option CustomPattern) : Prop :=
  ∃ v, Json.member? field.1 patterns = some v ∧ v.isNull = false ∧ field.2 = none

namespace PatternWarning

open CustomPatterns (LeftOut)

/-! ## One pattern -/

/-- The key of the pattern that a warning is about. -/
def key? : PatternWarning → Option String
  | .notMapping => none
  | .statefulFlags key => some key
  | .unusable key => some key

/-- What is told about the value that a field was given. -/
def about (key : String) (v : Json) (field : Option CustomPattern) : Option PatternWarning :=
  if v.isNull || field.isSome then none
  else some (if hasStatefulFlags v then .statefulFlags key else .unusable key)

theorem ofPattern_of_coerce {field : Option CustomPattern} (h : CustomPattern.coerce v = .ok field) :
    ofPattern key v = .ok (about key v field) := by
  unfold ofPattern about
  cases v.isNull with
  | true => rfl
  | false =>
    cases hstateful : hasStatefulFlags v with
    | true =>
      rw [CustomPattern.coerce_of_hasStatefulFlags hstateful] at h
      cases h
      rfl
    | false =>
      rw [h]
      cases field <;> rfl

theorem key?_of_about {field : Option CustomPattern} (h : about key v field = some w) : w.key? = some key := by
  unfold about at h
  split at h
  · cases h
  · cases h
    split <;> rfl

theorem exists_about_iff : (∃ w, about field.1 (.ofOption (Json.member? field.1 patterns)) field.2 = some w) ↔
    LeftOut patterns field := by
  unfold about LeftOut Json.ofOption
  cases Json.member? field.1 patterns with
  | none => simp [Json.isNull]
  | some v => cases hnull : v.isNull <;> cases hfield : field.2 <;> simp [hnull]

/-! ## All patterns -/

/-- What is told about all fields, in order. -/
def aboutFields (patterns : List (String × Json)) (c : CustomPatterns) : List PatternWarning :=
  c.fields.filterMap fun field => about field.1 (.ofOption (Json.member? field.1 patterns)) field.2

theorem ofNaming_fields (hpatterns : Json.member? "customPatterns" members = some (.obj patterns))
    (hc : CustomPatterns.ofMembers patterns = .ok c) :
    ofNaming (.obj members) = .ok (aboutFields patterns c) := by
  have hmembers : (Json.obj members).members?.bind (Json.member? "customPatterns") = some (.obj patterns) :=
    hpatterns
  have hcollected : (c.fields.map Prod.fst).mapM
      (fun key => ofPattern key (.ofOption (Json.member? key patterns))) =
        .ok (c.fields.map fun field => about field.1 (.ofOption (Json.member? field.1 patterns)) field.2) := by
    rw [List.mapM_map]
    exact mapM_eq_ok fun field hfield =>
      ofPattern_of_coerce (CustomPatterns.ofMembers_eq_ok.mp hc field hfield)
  have hkeys : keys = c.fields.map Prod.fst := rfl
  unfold ofNaming
  rw [hmembers]
  dsimp only
  rw [hkeys, hcollected, Except.map, List.filterMap_map]
  rfl

/-- Every pattern that is left out is told about, and no other one. -/
theorem reported_iff (hfield : field ∈ c.fields) :
    LeftOut patterns field ↔ ∃ w ∈ aboutFields patterns c, w.key? = some field.1 := by
  rw [← exists_about_iff]
  constructor
  · rintro ⟨w, hw⟩
    exact ⟨w, List.mem_filterMap.mpr ⟨field, hfield, hw⟩, key?_of_about hw⟩
  · rintro ⟨w, hw, hkey⟩
    obtain ⟨other, hother, habout⟩ := List.mem_filterMap.mp hw
    -- a warning names its field
    have hsame : other.1 = field.1 := by
      rw [key?_of_about habout] at hkey
      exact Option.some.inj hkey
    have hkeys : (c.fields.map Prod.fst).Nodup := (by decide : ["block", "element", "modifier"].Nodup)
    obtain rfl : other = field := List.inj_on_of_nodup_map hkeys hother hfield hsame
    exact ⟨w, habout⟩

/-! ## The setting -/

/-- The warnings are right: they tell about each pattern that is left out and about nothing else, or that the
setting holds no patterns at all. -/
def ReportsAll (setting : Option Json) (c : CustomPatterns) (ws : List PatternWarning) : Prop :=
  match setting with
  | none | some .null => ws = [] ∧ ∀ field ∈ c.fields, field.2 = none
  | some (.obj patterns) => (∀ w ∈ ws, w ≠ .notMapping) ∧
    ∀ field ∈ c.fields, LeftOut patterns field ↔ ∃ w ∈ ws, w.key? = some field.1
  | some _ => ws = [.notMapping] ∧ ∀ field ∈ c.fields, field.2 = none

/-- All patterns that the setting gives are used. -/
def LeavesNothingOut (setting : Option Json) (c : CustomPatterns) : Prop :=
  match setting with
  | none | some .null => True
  | some (.obj patterns) => ∀ field ∈ c.fields, ¬ LeftOut patterns field
  | some _ => False

theorem fields_of_nothing (hc : CustomPatterns.ofMembers [] = .ok c) : ∀ field ∈ c.fields, field.2 = none := by
  intro field hfield
  have hfields := CustomPatterns.ofMembers_eq_ok.mp hc field hfield
  exact (Except.ok.inj hfields).symm

theorem reportsAll_of_known (hv : Json.member? "customPatterns" members = some v)
    (hc : CustomPatterns.ofMembers (v.members?.getD []) = .ok c) (hws : ofNaming (.obj members) = .ok ws) :
    ReportsAll (some v) c ws := by
  have hmembers : (Json.obj members).members?.bind (Json.member? "customPatterns") = some v := hv
  cases v with
  | obj patterns =>
    have hc : CustomPatterns.ofMembers patterns = .ok c := hc
    rw [ofNaming_fields hv hc] at hws
    obtain rfl := Except.ok.inj hws
    refine ⟨fun w hw => ?_, fun field hfield => reported_iff hfield⟩
    obtain ⟨field, -, habout⟩ := List.mem_filterMap.mp hw
    rintro rfl
    cases key?_of_about habout
  | _ =>
    unfold ofNaming at hws
    rw [hmembers] at hws
    exact ⟨(Except.ok.inj hws).symm, fields_of_nothing hc⟩

theorem reportsAll_nil_iff {setting : Option Json}
    (hc : CustomPatterns.ofMembers ((setting.bind Json.members?).getD []) = .ok c) :
    ReportsAll setting c [] ↔ LeavesNothingOut setting c := by
  cases setting with
  | none => exact iff_of_true ⟨rfl, fields_of_nothing hc⟩ trivial
  | some v =>
    cases v with
    | null => exact iff_of_true ⟨rfl, fields_of_nothing hc⟩ trivial
    | obj patterns => simp [ReportsAll, LeavesNothingOut]
    | _ => simp [ReportsAll, LeavesNothingOut]

/-- The warnings about the patterns of a configuration are right if the setting has the name that the warnings
know, and under its other name only if there is nothing to tell. -/
theorem reportsAll_iff (hn : NamingOptions.fromConfig (.obj members) = .ok n)
    (hws : ofNaming (.obj members) = .ok ws) :
    ReportsAll (Json.either? members "customPatterns" "custom_patterns") n.custom ws ↔
      (Json.member? "customPatterns" members).isSome = true ∨
        LeavesNothingOut (Json.member? "custom_patterns" members) n.custom := by
  obtain ⟨hcustom, -⟩ := NamingOptions.fromConfig_eq_ok hn
  have hentries : (Json.obj members).patternEntries =
      ((Json.either? members "customPatterns" "custom_patterns").bind Json.members?).getD [] := rfl
  rw [hentries] at hcustom
  unfold Json.either? at hcustom ⊢
  cases hv : Json.member? "customPatterns" members with
  | some v =>
    rw [hv] at hcustom
    exact iff_of_true (reportsAll_of_known hv hcustom hws) (.inl rfl)
  | none =>
    rw [hv] at hcustom
    have hmembers : (Json.obj members).members?.bind (Json.member? "customPatterns") = none := hv
    unfold ofNaming at hws
    rw [hmembers] at hws
    obtain rfl := Except.ok.inj hws
    dsimp only at hcustom ⊢
    rw [reportsAll_nil_iff hcustom]
    simp

/-- Three patterns that are left out, one of them for its flags. -/
theorem reportsAll_of_three :
    let patterns : Json := .obj [("block", .str "/^x$/g"), ("element", .str "("), ("modifier", .int 42)]
    let members := [("customPatterns", patterns)]
    let ws := [.statefulFlags "block", .unusable "element", .unusable "modifier"]
    ∃ n, NamingOptions.fromConfig (.obj members) = .ok n ∧ ofNaming (.obj members) = .ok ws ∧
      ReportsAll (some patterns) n.custom ws := by
  intro patterns members ws
  have hread : (NamingOptions.fromConfig (.obj members)).toOption.any (fun _ => true) = true := by
    decide +kernel
  have htold : (ofNaming (.obj members)).toOption.any (fun told => told = ws) = true := by
    decide +kernel
  obtain ⟨n, hn, -⟩ := exists_of_any_toOption hread
  obtain ⟨told, htold, heq⟩ := exists_of_any_toOption htold
  obtain rfl := of_decide_eq_true heq
  exact ⟨n, hn, htold, (reportsAll_iff hn htold).mpr (.inl rfl)⟩

/-- Under the other name of the setting a pattern is left out without a word. -/
theorem not_reportsAll_of_other_name :
    let patterns : Json := .obj [("block", .str "a**")]
    let members := [("custom_patterns", patterns)]
    ∃ n ws, NamingOptions.fromConfig (.obj members) = .ok n ∧ ofNaming (.obj members) = .ok ws ∧
      ¬ ReportsAll (Json.either? members "customPatterns" "custom_patterns") n.custom ws := by
  intro patterns members
  have hread : (NamingOptions.fromConfig (.obj members)).toOption.any (fun n => n.custom.block.isNone) = true := by
    decide +kernel
  obtain ⟨n, hn, hblock⟩ := exists_of_any_toOption hread
  refine ⟨n, [], hn, rfl, fun h => ?_⟩
  have hleft : LeftOut [("block", .str "a**")] ("block", n.custom.block) :=
    ⟨_, rfl, rfl, Option.isNone_iff_eq_none.mp hblock⟩
  obtain ⟨w, hw, -⟩ := (h.2 _ List.mem_cons_self).mp hleft
  cases hw

end PatternWarning

end BlockMarkup
