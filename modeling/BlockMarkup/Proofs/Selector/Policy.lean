import BlockMarkup.Proofs.Selector.Keys

/-! # Unusable settings of a policy

Each error of a policy names a setting that is unusable (`Fault`): a mode that is none, a list that gives
no keys, a word case or a number of words that is none. Settings that are missing or null are not unusable,
but for a mode that is null. The settings are checked in one order, and the first unusable one is reported
(`checks_fromConfig`). If there is none, there is a policy with usable keys, and what the value namings
leave open is inherited (`fromConfig_error_iff_fault`).
-/

namespace BlockMarkup

/-! ## Checks in an order -/

section Checks

variable {ε α β : Type} {fault : ε → Prop} {e : ε} {checks others : List ε} {x : Except ε α}
  {Q : α → Prop} {R : β → Prop}

/-- A computation checks for errors in an order: it fails with the first one there is, and if there is none
its result has a property. -/
def Checks (fault : ε → Prop) (checks : List ε) (Q : α → Prop) : Except ε α → Prop
  | .ok a => (∀ e ∈ checks, ¬ fault e) ∧ Q a
  | .error e => ∃ before after, checks = before ++ e :: after ∧ fault e ∧ ∀ e' ∈ before, ¬ fault e'

theorem checks_pure {a : α} (h : Q a) : Checks fault [] Q (.ok a) := ⟨by simp, h⟩

theorem checks_ok {a : α} (h : ¬ fault e) (hQ : Q a) : Checks fault [e] Q (.ok a) :=
  ⟨List.forall_mem_singleton.mpr h, hQ⟩

theorem checks_error (h : fault e) : Checks fault [e] Q (.error e) := ⟨[], [], rfl, h, by simp⟩

/-- What is computed from a result is checked after it. -/
theorem Checks.bind {f : α → Except ε β} (h : Checks fault checks Q x)
    (hrest : ∀ a, Q a → Checks fault others R (f a)) : Checks fault (checks ++ others) R (x >>= f) := by
  cases x with
  | error e =>
    obtain ⟨before, after, rfl, hfault, hbefore⟩ := h
    exact ⟨before, after ++ others, by simp, hfault, hbefore⟩
  | ok a =>
    obtain ⟨hnone, hQ⟩ := h
    have hlater := hrest a hQ
    -- no check has failed so far, so the first fault is the one that the rest finds
    change Checks fault (checks ++ others) R (f a)
    cases hf : f a with
    | ok b =>
      rw [hf] at hlater
      exact ⟨fun e he => (List.mem_append.mp he).elim (hnone e) (hlater.1 e), hlater.2⟩
    | error e =>
      rw [hf] at hlater
      obtain ⟨before, after, rfl, hfault, hbefore⟩ := hlater
      exact ⟨checks ++ before, after, by simp, hfault,
        fun e' he' => (List.mem_append.mp he').elim (hnone e') (hbefore e')⟩

theorem Checks.map {f : α → β} (h : Checks fault checks Q x) (hf : ∀ a, Q a → R (f a)) :
    Checks fault checks R (x >>= fun a => .ok (f a)) := by
  have hmap := h.bind fun a ha => checks_pure (hf a ha)
  rwa [List.append_nil] at hmap

theorem Checks.exists_error_iff (h : Checks fault checks Q x) :
    (∃ e, x = .error e) ↔ ∃ e ∈ checks, fault e := by
  cases x with
  | ok a =>
    refine iff_of_false (by rintro ⟨e, ⟨⟩⟩) ?_
    rintro ⟨e, he, hfault⟩
    exact h.1 e he hfault
  | error e =>
    obtain ⟨before, after, rfl, hfault, -⟩ := h
    exact iff_of_true ⟨e, rfl⟩ ⟨e, by simp, hfault⟩

end Checks

/-- A value that is found by a name is given by it. -/
theorem Json.eq_str_of_find? {α : Type} {name : α → String} {values : List α} {v : Json} {a : α}
    (h : (v.str?.bind fun s => values.find? (name · = s)) = some a) : v = .str (name a) := by
  obtain ⟨s, hs, ha⟩ := Option.bind_eq_some_iff.mp h
  have hname : name a = s := of_decide_eq_true (List.find?_some (p := fun b => name b = s) ha)
  rw [hname]
  cases v with
  | str t => rw [Option.some.inj hs]
  | null | bool | int | float | arr | obj => cases hs

/-! ## Value namings -/

namespace ValueNaming

variable {raw : Option Json} {place : Option Axis}

/-- The word case that is given, if the value naming is a mapping. -/
def case? (raw : Option Json) : Option Json :=
  (raw.bind Json.members?).bind (Json.member? "case")

/-- The number of words that is given. -/
def maxWords? (raw : Option Json) : Option Json :=
  (raw.bind Json.members?).bind (Json.either? · "maxWords" "max_words")

/-- Reads the word case alone. -/
def readCase (place : Option Axis) (fallback : WordCase) : Option Json → Except PolicyError WordCase
  | none | some .null => .ok fallback
  | some v =>
    match WordCase.ofJson? v with
    | some c => .ok c
    | none => .error (.valueCase place)

/-- Reads the number of words alone. -/
def readMaxWords (place : Option Axis) (fallback : Nat) : Option Json → Except PolicyError Nat
  | none | some .null => .ok fallback
  | some (.int n) => if n < 1 then .error (.maxWords place) else .ok n.toNat
  | some _ => .error (.maxWords place)

/-- The two are read one after the other; without a mapping none of them is given. -/
theorem read_eq (place : Option Axis) (fallback : ValueNaming) (raw : Option Json) :
    read place fallback raw = readCase place fallback.case (case? raw) >>= fun c =>
      readMaxWords place fallback.maxWords (maxWords? raw) >>= fun n => .ok ⟨c, n⟩ := by
  -- how the number of words is read does not depend on the word case
  have hwords : ∀ (c : WordCase) (b : Option Json),
      (readMaxWords place fallback.maxWords b >>= fun n => .ok (⟨c, n⟩ : ValueNaming)) =
        match b with
        | none | some .null => .ok ⟨c, fallback.maxWords⟩
        | some (.int n) => if n < 1 then .error (.maxWords place) else .ok ⟨c, n.toNat⟩
        | some _ => .error (.maxWords place) := by
    intro c b
    unfold readMaxWords
    split
    · rfl
    · rfl
    · split <;> rfl
    · rfl
  unfold read
  split
  · rename_i members
    have hcase : case? (some (.obj members)) = Json.member? "case" members := rfl
    have hmaxWords : maxWords? (some (.obj members)) = Json.either? members "maxWords" "max_words" := rfl
    simp only [hwords, hcase, hmaxWords]
    generalize Json.member? "case" members = setting
    generalize Json.either? members "maxWords" "max_words" = other
    split
    · rfl
    · rfl
    · rename_i v hnull
      rw [readCase]
      · cases WordCase.ofJson? v <;> rfl
      · exact hnull
  · rename_i hmapping
    have hnone : raw.bind Json.members? = none := by
      rw [Option.bind_eq_none_iff]
      intro v hv
      cases v with
      | obj members => exact absurd hv (hmapping members)
      | null | bool | int | float | str | arr => rfl
    rw [case?, maxWords?, hnone]
    rfl

/-- A setting that is missing or null. -/
def Unset (setting : Option Json) : Prop := setting = none ∨ setting = some .null

/-- Something else is given than one of the word cases. -/
def BadCase (raw : Option Json) : Prop :=
  ∃ v ∈ case? raw, v ≠ .null ∧ ∀ case : WordCase, v ≠ .str case.name

/-- Something else is given than a positive integer. -/
def BadMaxWords (raw : Option Json) : Prop :=
  ∃ v ∈ maxWords? raw, v ≠ .null ∧ ∀ n : Int, 1 ≤ n → v ≠ .int n

/-- Each of the two is what is given, or else that of the fallback. -/
structure Inherits (raw : Option Json) (fallback v : ValueNaming) : Prop where
  case : Unset (case? raw) ∧ v.case = fallback.case ∨ case? raw = some (.str v.case.name)
  maxWords : Unset (maxWords? raw) ∧ v.maxWords = fallback.maxWords ∨
    maxWords? raw = some (.int v.maxWords) ∧ 1 ≤ v.maxWords

theorem checks_readCase {fault : PolicyError → Prop} {fallback : WordCase}
    (hfault : fault (.valueCase place) ↔ BadCase raw) :
    Checks fault [.valueCase place]
      (fun c => Unset (case? raw) ∧ c = fallback ∨ case? raw = some (.str c.name))
      (readCase place fallback (case? raw)) := by
  rw [BadCase] at hfault
  generalize case? raw = setting at hfault ⊢
  unfold readCase
  split
  · refine checks_ok (fun h => ?_) (Or.inl ⟨Or.inl rfl, rfl⟩)
    obtain ⟨v, ⟨⟩, -⟩ := hfault.mp h
  · refine checks_ok (fun h => ?_) (Or.inl ⟨Or.inr rfl, rfl⟩)
    obtain ⟨_, ⟨⟩, hnull, -⟩ := hfault.mp h
    exact hnull rfl
  · rename_i v hnull
    cases hcase : WordCase.ofJson? v with
    | some c =>
      obtain rfl := Json.eq_str_of_find? hcase
      refine checks_ok (fun h => ?_) (Or.inr rfl)
      obtain ⟨_, ⟨⟩, -, hnone⟩ := hfault.mp h
      exact hnone c rfl
    | none =>
      refine checks_error (hfault.mpr ⟨v, rfl, hnull, ?_⟩)
      rintro c rfl
      rw [WordCase.ofJson?, Json.str?, Option.bind_some, WordCase.ofName?_name] at hcase
      cases hcase

theorem checks_readMaxWords {fault : PolicyError → Prop} {fallback : Nat}
    (hfault : fault (.maxWords place) ↔ BadMaxWords raw) :
    Checks fault [.maxWords place]
      (fun n => Unset (maxWords? raw) ∧ n = fallback ∨ maxWords? raw = some (.int n) ∧ 1 ≤ n)
      (readMaxWords place fallback (maxWords? raw)) := by
  rw [BadMaxWords] at hfault
  generalize maxWords? raw = setting at hfault ⊢
  unfold readMaxWords
  split
  · refine checks_ok (fun h => ?_) (Or.inl ⟨Or.inl rfl, rfl⟩)
    obtain ⟨v, ⟨⟩, -⟩ := hfault.mp h
  · refine checks_ok (fun h => ?_) (Or.inl ⟨Or.inr rfl, rfl⟩)
    obtain ⟨_, ⟨⟩, hnull, -⟩ := hfault.mp h
    exact hnull rfl
  · rename_i n
    split
    · rename_i hn
      refine checks_error (hfault.mpr ⟨.int n, rfl, (by rintro ⟨⟩), ?_⟩)
      rintro m hm ⟨⟩
      omega
    · rename_i hn
      have hpositive : (n.toNat : Int) = n := Int.toNat_of_nonneg (by omega)
      refine checks_ok (fun h => ?_) (Or.inr ⟨by rw [hpositive], by omega⟩)
      obtain ⟨_, ⟨⟩, -, hnone⟩ := hfault.mp h
      exact hnone n (by omega) rfl
  · rename_i v hnull hint
    exact checks_error (hfault.mpr ⟨v, rfl, hnull, fun n _ => hint n⟩)

end ValueNaming

/-! ## Settings -/

/-- The other key under which the list of an axis may stand. -/
def Axis.otherListKey : Axis → String
  | .variant => "data_keys"
  | .state => "aria_keys"

namespace SelectorPolicy

open ValueNaming (BadCase BadMaxWords Inherits Unset case? maxWords?)

variable {raw : Json}

/-- The mapping with the settings of an axis, or with the common ones. -/
def settings? (raw : Json) : Option Axis → Option (List (String × Json))
  | none => raw.members?
  | some axis => raw.members?.bind fun members => (Json.member? axis.name members).bind Json.members?

/-- The mode that is given for an axis. -/
def mode? (raw : Json) (axis : Axis) : Option Json :=
  (settings? raw (some axis)).bind (Json.member? "mode")

/-- The list that is given for an axis, under the one key or else under the other. -/
def keyList? (raw : Json) (axis : Axis) : Option Json :=
  (settings? raw (some axis)).bind (Json.either? · axis.listKey axis.otherListKey)

/-- The key of states that is given. -/
def dataKey? (raw : Json) : Option Json :=
  (settings? raw (some .state)).bind (Json.either? · "dataKey" "data_key")

/-- The value naming that is given for an axis, or the common one. -/
def naming? (raw : Json) (place : Option Axis) : Option Json :=
  (settings? raw place).bind (Json.either? · "valueNaming" "value_naming")

/-- A mode is given, but none of the two. -/
def BadMode (mode : Option Json) : Prop := ∃ v ∈ mode, v ≠ .str "data" ∧ v ≠ .str "class"

/-- The mode is the one that is given, or else that of attributes. -/
def IsMode (setting : Option Json) (mode : SelectorMode) : Prop :=
  setting = none ∧ mode = .byData ∨ setting = some (.str mode.name)

/-- The setting that an error names is unusable. -/
def Fault (raw : Json) : PolicyError → Prop
  | .mode axis => BadMode (mode? raw axis)
  | .keyList axis => BadKeyList (keyList? raw axis)
  | .valueCase place => BadCase (naming? raw place)
  | .maxWords place => BadMaxWords (naming? raw place)

/-- The errors in the order in which they are looked for. -/
def order : List PolicyError :=
  [.mode .variant, .mode .state, .keyList .variant, .keyList .state, .valueCase none, .maxWords none,
    .valueCase (some .variant), .maxWords (some .variant), .valueCase (some .state), .maxWords (some .state)]

theorem mem_order (e : PolicyError) : e ∈ order := by
  cases e with
  | mode axis | keyList axis => cases axis <;> decide
  | valueCase place | maxWords place =>
    cases place with
    | none => decide
    | some axis => cases axis <;> decide

/-- Each part of a policy is what the settings give, or else the default. The keys are usable, and value
namings inherit from the common one. -/
structure Settles (raw : Json) (p : SelectorPolicy) : Prop where
  modeOfVariants : IsMode (mode? raw .variant) p.variant.mode
  modeOfStates : IsMode (mode? raw .state) p.state.mode
  dataKeys : GivesKeys (keyList? raw .variant) ["data-variant"] p.variant.dataKeys
  ariaKeys : GivesKeys (keyList? raw .state) ["aria-expanded", "aria-selected", "aria-disabled"]
    p.state.ariaKeys
  dataKey : GivesStateKey (dataKey? raw) p.state.dataKey
  usable : IsKeyList p.variant.dataKeys ∧ IsKeyList p.state.ariaKeys ∧ IsKey p.state.dataKey
  common : Inherits (naming? raw none) { case := .kebab, maxWords := 2 } p.valueNaming
  ofVariants : Inherits (naming? raw (some .variant)) p.valueNaming p.variant.valueNaming
  ofStates : Inherits (naming? raw (some .state)) p.valueNaming p.state.valueNaming

/-! ## Reading -/

theorem member?_getD (members : Option (List (String × Json))) (key : String) :
    Json.member? key (members.getD []) = members.bind (Json.member? key) := by
  cases members <;> rfl

theorem either?_getD (members : Option (List (String × Json))) (key other : String) :
    Json.either? (members.getD []) key other = members.bind (Json.either? · key other) := by
  cases members <;> rfl

theorem checks_readMode (raw : Json) (axis : Axis) :
    Checks (Fault raw) [.mode axis] (IsMode (mode? raw axis))
      (readMode axis ((settings? raw (some axis)).getD [])) := by
  have hfault : Fault raw (.mode axis) ↔ BadMode (mode? raw axis) := Iff.rfl
  rw [readMode, member?_getD, ← mode?]
  generalize mode? raw axis = setting at hfault ⊢
  split
  · refine checks_ok (fun h => ?_) (Or.inl ⟨rfl, rfl⟩)
    obtain ⟨v, ⟨⟩, -⟩ := hfault.mp h
  · rename_i v
    split
    · rename_i mode hmode
      obtain rfl := Json.eq_str_of_find? hmode
      refine checks_ok (fun h => ?_) (Or.inr rfl)
      obtain ⟨_, ⟨⟩, hdata, hclass⟩ := hfault.mp h
      cases mode with
      | byData => exact hdata rfl
      | byClass => exact hclass rfl
    · rename_i hmode
      refine checks_error (hfault.mpr ⟨v, rfl, ?_, ?_⟩)
      · rintro rfl
        cases hmode
      · rintro rfl
        cases hmode

theorem checks_readKeyList (raw : Json) (axis : Axis) (fallback : List String) :
    Checks (Fault raw) [.keyList axis] (GivesKeys (keyList? raw axis) fallback)
      (readKeyList axis fallback
        (Json.either? ((settings? raw (some axis)).getD []) axis.listKey axis.otherListKey)) := by
  rw [either?_getD, ← keyList?]
  cases h : readKeyList axis fallback (keyList? raw axis) with
  | ok keys => exact checks_ok (exists_readKeyList_iff.mp ⟨keys, h⟩) (readKeyList_eq_ok_iff.mp h)
  | error e =>
    have hbad : BadKeyList (keyList? raw axis) := by
      by_contra hnone
      obtain ⟨keys, hkeys⟩ := exists_readKeyList_iff.mpr hnone
      rw [h] at hkeys
      cases hkeys
    rw [readKeyList_error h]
    exact checks_error hbad

theorem givesStateKey_settings (raw : Json) : GivesStateKey (dataKey? raw)
    (readStateKey (Json.either? ((settings? raw (some .state)).getD []) "dataKey" "data_key")) := by
  rw [either?_getD]
  exact givesStateKey_readStateKey _

theorem checks_readNaming (raw : Json) (place : Option Axis) (fallback : ValueNaming) :
    Checks (Fault raw) [.valueCase place, .maxWords place] (Inherits (naming? raw place) fallback)
      (ValueNaming.read place fallback
        (Json.either? ((settings? raw place).getD []) "valueNaming" "value_naming")) := by
  have hcase : Fault raw (.valueCase place) ↔ BadCase (naming? raw place) := Iff.rfl
  have hmaxWords : Fault raw (.maxWords place) ↔ BadMaxWords (naming? raw place) := Iff.rfl
  rw [either?_getD, ← naming?, ValueNaming.read_eq]
  refine (ValueNaming.checks_readCase hcase).bind fun c hc => ?_
  exact (ValueNaming.checks_readMaxWords hmaxWords).map fun n hn => ⟨hc, hn⟩

/-! ## Values that are no mapping -/

theorem settings?_eq_none (h : raw.members? = none) (place : Option Axis) : settings? raw place = none := by
  cases place with
  | none => exact h
  | some axis =>
    rw [settings?, h]
    rfl

theorem naming?_eq_none (h : raw.members? = none) (place : Option Axis) : naming? raw place = none := by
  rw [naming?, settings?_eq_none h]
  rfl

theorem not_fault (h : raw.members? = none) (e : PolicyError) : ¬ Fault raw e := by
  intro hfault
  cases e with
  | mode axis =>
    obtain ⟨v, hv, -⟩ := hfault
    rw [mode?, settings?_eq_none h] at hv
    cases hv
  | keyList axis =>
    obtain ⟨v, hv, -⟩ := hfault
    rw [keyList?, settings?_eq_none h] at hv
    cases hv
  | valueCase place | maxWords place =>
    obtain ⟨v, hv, -⟩ := hfault
    rw [naming?_eq_none h] at hv
    cases hv

/-- Where nothing is given the default settles everything. -/
theorem settles_default (h : raw.members? = none) : Settles raw {} := by
  have hmode : ∀ axis, IsMode (mode? raw axis) .byData := by
    intro axis
    rw [mode?, settings?_eq_none h]
    exact Or.inl ⟨rfl, rfl⟩
  have hinherits : ∀ place v, Inherits (naming? raw place) v v := by
    intro place v
    rw [naming?_eq_none h]
    exact ⟨Or.inl ⟨Or.inl rfl, rfl⟩, Or.inl ⟨Or.inl rfl, rfl⟩⟩
  have hkeys : ∀ axis keys, GivesKeys (keyList? raw axis) keys keys := by
    intro axis keys
    rw [keyList?, settings?_eq_none h]
    exact Or.inl ⟨Or.inl rfl, rfl⟩
  have hkey : GivesStateKey (dataKey? raw) "data-state" := by
    rw [dataKey?, settings?_eq_none h]
    exact givesStateKey_readStateKey none
  exact ⟨hmode _, hmode _, hkeys _ _, hkeys _ _, hkey, by decide, hinherits _ _, hinherits _ _, hinherits _ _⟩

/-! ## Policies -/

/-- The settings are checked one by one. -/
theorem checks_fromConfig (raw : Json) : Checks (Fault raw) order (Settles raw) (fromConfig raw) := by
  cases raw with
  | obj members =>
    unfold fromConfig
    -- one step for each reader; what it finds is unusable before anything behind it is looked at
    refine (checks_readMode (.obj members) .variant).bind fun variantMode hvariantMode => ?_
    refine (checks_readMode (.obj members) .state).bind fun stateMode hstateMode => ?_
    refine (checks_readKeyList (.obj members) .variant _).bind fun dataKeys hdataKeys => ?_
    refine (checks_readKeyList (.obj members) .state _).bind fun ariaKeys hariaKeys => ?_
    refine (checks_readNaming (.obj members) none {}).bind fun common hcommon => ?_
    refine (checks_readNaming (.obj members) (some .variant) common).bind fun variant hvariant => ?_
    refine (checks_readNaming (.obj members) (some .state) common).bind fun state hstate => ?_
    have hdataKey := givesStateKey_settings (.obj members)
    have husable : IsKeyList dataKeys ∧ IsKeyList ariaKeys :=
      ⟨hdataKeys.isKeyList (by decide), hariaKeys.isKeyList (by decide)⟩
    exact checks_pure ⟨hvariantMode, hstateMode, hdataKeys, hariaKeys, hdataKey,
      ⟨husable.1, husable.2, hdataKey.isKey⟩, hcommon, hvariant, hstate⟩
  | null | bool | int | float | str | arr =>
    exact ⟨fun e _ => not_fault rfl e, settles_default rfl⟩

/-- A value is refused just if it is a mapping with an unusable setting, and of any other value a policy is
made that settles everything. What is reported is unusable, and nothing that is looked at before is. -/
theorem fromConfig_error_iff_fault (raw : Json) :
    ((∃ e, fromConfig raw = .error e) ↔ ∃ members, raw = .obj members ∧ ∃ e, Fault raw e) ∧
    (∀ e, fromConfig raw = .error e →
      ∃ before after, order = before ++ e :: after ∧ Fault raw e ∧ ∀ e' ∈ before, ¬ Fault raw e') ∧
    ∀ p, fromConfig raw = .ok p → Settles raw p := by
  have hchecks := checks_fromConfig raw
  refine ⟨?_, fun e he => ?_, fun p hp => ?_⟩
  · rw [hchecks.exists_error_iff]
    constructor
    · rintro ⟨e, -, hfault⟩
      cases raw with
      | obj members => exact ⟨members, rfl, e, hfault⟩
      | null | bool | int | float | str | arr => exact absurd hfault (not_fault rfl e)
    · rintro ⟨members, -, e, hfault⟩
      exact ⟨e, mem_order e, hfault⟩
  · rw [he] at hchecks
    exact hchecks
  · rw [hp] at hchecks
    exact hchecks.2

/-- A null under the first key hides what stands under the other one. -/
example : fromConfig (.obj [("variant", .obj [("dataKeys", .null), ("data_keys", .str "data-kind")])]) =
    .ok {} := by
  decide +kernel

end SelectorPolicy

end BlockMarkup
