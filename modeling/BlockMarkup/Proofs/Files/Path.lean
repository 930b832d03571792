import Mathlib.Data.List.Induction
import Mathlib.Tactic.Common
import BlockMarkup.Files.Path

/-! # Where paths lead

Two paths lead to the same place if they are resolved alike in every working directory
(`Path.Same`). Going through a path leaves some of the places one has come through and enters others
(`foldl_step`), so leaving a directory leads back to where one was just if the directory is one that
a single name leads to (`same_parent_iff`).
-/

namespace BlockMarkup.Path

/-- The paths lead to the same place, whatever the working directory is. -/
def Same (p q : Path) : Prop := ∀ directory : Path, directory.resolve p = directory.resolve q

/-- The text names a file or a directory inside the directory one is in. -/
def IsName (s : String) : Prop := '/' ∉ s.toList ∧ s ∉ ["", ".", parentName]

instance (s : String) : Decidable (IsName s) := inferInstanceAs (Decidable (_ ∧ _))

variable {p q : Path} {names names' : List String} {name name' : String} {absolute absolute' : Bool}

/-! ## Paths of texts -/

theorem segments_ne_nil (s : List Char) : segments s ≠ [] := by
  cases s with
  | nil => simp [segments]
  | cons c rest =>
    rw [segments]
    split
    · simp
    · split <;> simp

theorem segments_append (a b : List Char) :
    segments (a ++ '/' :: b) = segments a ++ segments b := by
  induction a with
  | nil => rfl
  | cons c rest ih =>
    rw [List.cons_append, segments, segments, ih]
    split
    · rfl
    · rcases List.exists_cons_of_ne_nil (segments_ne_nil rest) with ⟨segment, others, h⟩
      rw [h]
      rfl

theorem segments_of_notMem {s : List Char} (h : '/' ∉ s) : segments s = [s] := by
  induction s with
  | nil => rfl
  | cons c rest ih =>
    rw [List.mem_cons, not_or] at h
    rw [segments, if_neg (Ne.symm h.1), ih h.2]

theorem isPrefixOf_slash {s : List Char} (h : '/' ∉ s) : "/".toList.isPrefixOf s = false := by
  cases s with
  | nil => rfl
  | cons c rest =>
    rw [List.mem_cons, not_or] at h
    simp [List.isPrefixOf, h.1]

theorem ofString_name (h : IsName name) : ofString name = ⟨false, [name]⟩ := by
  rcases h with ⟨hslash, hname⟩
  simp only [List.mem_cons, List.not_mem_nil, or_false, not_or] at hname
  rw [ofString, isPrefixOf_slash hslash, segments_of_notMem hslash]
  simp [hname]

/-- The path of a name inside a directory. -/
theorem ofString_append (directory : String) (h : IsName name) :
    ofString (directory ++ "/" ++ name) =
      ⟨(ofString (directory ++ "/")).absolute, (ofString (directory ++ "/")).names ++ [name]⟩ := by
  have hsegments : segments (directory ++ "/" ++ name).toList =
      segments directory.toList ++ segments name.toList := by
    rw [String.toList_append, String.toList_append, List.append_assoc]
    exact segments_append _ _
  have hclosed : segments (directory ++ "/").toList = segments directory.toList ++ [[]] := by
    rw [String.toList_append]
    exact segments_append _ []
  have hprefix : "/".toList.isPrefixOf (directory ++ "/" ++ name).toList =
      "/".toList.isPrefixOf (directory ++ "/").toList := by
    rw [String.toList_append, String.toList_append]
    cases directory.toList <;> simp [List.isPrefixOf]
  have hname := congrArg Path.names (ofString_name h)
  simp only [ofString] at hname
  rw [ofString, ofString, hsegments, hclosed, hprefix]
  simp [hname]

/-! ## Going through a path -/

theorem step_name (h : name ≠ parentName) (place : List String) :
    step place name = place ++ [name] := by
  rw [step, if_neg h]

theorem step_parentName (place : List String) : step place parentName = place.dropLast := by
  rw [step, if_pos rfl]

/-- Going through a path leaves some places that one has come through, and enters others. -/
theorem foldl_step (names : List String) :
    ∃ k ns, (∀ n ∈ ns, n ≠ parentName) ∧
      ∀ place, names.foldl step place = place.take (place.length - k) ++ ns := by
  induction names using List.reverseRecOn with
  | nil => exact ⟨0, [], by simp, by simp⟩
  | append_singleton names name ih =>
    rcases ih with ⟨k, ns, hns, hfold⟩
    by_cases hname : name = parentName
    · -- back out of the last place entered, or else of one more that one has come through
      subst hname
      cases ns with
      | nil =>
        refine ⟨k + 1, [], by simp, fun place => ?_⟩
        rw [List.foldl_append, hfold]
        simp [step_parentName, List.dropLast_eq_take, List.take_take]
        omega
      | cons n rest =>
        refine ⟨k, (n :: rest).dropLast, fun m hm => hns m (List.dropLast_subset _ hm), fun place => ?_⟩
        rw [List.foldl_append, hfold]
        simp [step_parentName, List.dropLast_append_of_ne_nil]
    · refine ⟨k, ns ++ [name], ?_, fun place => ?_⟩
      · intro m hm
        rcases List.mem_append.mp hm with hm | hm
        · exact hns m hm
        · rw [List.mem_singleton.mp hm]
          exact hname
      · rw [List.foldl_append, hfold]
        simp [step_name hname]

theorem foldl_step_names {names : List String} (h : ∀ n ∈ names, n ≠ parentName)
    (place : List String) : names.foldl step place = place ++ names := by
  induction names generalizing place with
  | nil => simp
  | cons n rest ih =>
    rw [List.forall_mem_cons] at h
    rw [List.foldl_cons, step_name h.1, ih h.2, List.append_assoc]
    rfl

/-- The place that a path leads to from a working directory. -/
theorem resolve_names (directory : Path) (absolute : Bool) (names : List String) :
    (directory.resolve ⟨absolute, names⟩).names =
      names.foldl step (if absolute then [] else directory.names.foldl step []) := by
  cases absolute with
  | true => rfl
  | false => simp [resolve, join]

theorem same_iff : p.Same q ↔
    ∀ directory : Path, (directory.resolve p).names = (directory.resolve q).names := by
  refine forall_congr' fun directory => ?_
  rw [resolve, resolve, mk.injEq, eq_self, true_and]

theorem Same.refl (p : Path) : p.Same p := fun _ => rfl

/-- Files are at the same place just if they have one name and are in the same directory. -/
theorem same_append_iff (h : name ≠ parentName) (h' : name' ≠ parentName) :
    (⟨absolute, names ++ [name]⟩ : Path).Same ⟨absolute', names' ++ [name']⟩ ↔
      name = name' ∧ (⟨absolute, names⟩ : Path).Same ⟨absolute', names'⟩ := by
  simp only [same_iff, resolve_names, List.foldl_append, List.foldl_cons, List.foldl_nil,
    step_name h, step_name h']
  constructor
  · intro hsame
    have hname := fun directory => List.append_inj_right' (hsame directory) rfl
    have hplace := fun directory => List.append_inj_left' (hsame directory) rfl
    exact ⟨List.singleton_inj.mp (hname ⟨true, []⟩), hplace⟩
  · rintro ⟨rfl, hsame⟩ directory
    rw [hsame]

/-- Leaving a directory leads back just if a single name leads to it. -/
theorem same_parent_iff :
    (⟨absolute, names ++ [parentName]⟩ : Path).Same ⟨false, []⟩ ↔
      ∃ name, name ≠ parentName ∧ (⟨absolute, names⟩ : Path).Same ⟨false, [name]⟩ := by
  simp only [same_iff, resolve_names, List.foldl_append, List.foldl_cons, List.foldl_nil,
    step_parentName]
  constructor
  · intro hsame
    -- two working directories, neither of which is left
    have hback : ∀ place, (∀ n ∈ place, n ≠ parentName) →
        (names.foldl step (if absolute then [] else place)).dropLast = place := by
      intro place hplace
      have h := hsame ⟨true, place⟩
      rwa [foldl_step_names hplace, List.nil_append] at h
    cases absolute with
    | true =>
      have hroot := hback [] (by simp)
      have hdir := hback ["a"] (by simp [parentName])
      rw [if_pos rfl] at hroot hdir
      rw [hroot] at hdir
      simp at hdir
    | false =>
      rcases foldl_step names with ⟨k, ns, hns, hfold⟩
      simp only [Bool.false_eq_true, if_false, hfold] at hback
      -- no directory is left and one is entered: in a deep directory lengths agree
      have hroot := congrArg List.length (hback [] (by simp))
      have hdeep := congrArg List.length (hback (List.replicate (k + 1) "a") (by simp [parentName]))
      simp only [List.length_dropLast, List.length_append, List.length_take,
        List.length_replicate, List.length_nil] at hroot hdeep
      obtain rfl : k = 0 := by omega
      obtain ⟨name, rfl⟩ := List.length_eq_one_iff.mp (show ns.length = 1 by omega)
      refine ⟨name, hns name (List.mem_singleton_self _), fun directory => ?_⟩
      rw [hfold]
      simp [step_name (hns name (List.mem_singleton_self _))]
  · rintro ⟨name, hname, hsame⟩ directory
    rw [hsame directory]
    simp [step_name hname]

end BlockMarkup.Path
