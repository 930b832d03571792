import BlockMarkup.Proofs.Lint.Exactness
import BlockMarkup.Proofs.Stylesheet.Coverage

/-! # The choice of roots

The linter and the generator choose the roots of a document each by steps of its own: the linter
goes on with one of several possible roots and reports the doubt, the generator gives up. The roots
are the same wherever both have some (`selectRoots_eq_ok_iff`), so the issues tell whether the
generator gives up.

Main statement: `generate_fails_iff`.
-/

namespace BlockMarkup

open Markup (RootMode Document Node)

/-- The issue says that the roots cannot be chosen. -/
def Issue.DeniesRoots (i : Issue) : Prop :=
  i.code = .multipleRootElements ∨ (i.code = .invalidBaseClass ∧ i.path = [])

namespace Lint

variable {c : Conventions} {mode : RootMode} {html : List Char} {nodes : List Node}
variable {issues : List Issue}

/-- No rule doubts the choice of roots. -/
theorem not_reported_multipleRootElements {x : NodeContext} :
    ¬ Reported x .multipleRootElements := by
  rintro ⟨r, hr, h⟩
  have hcodes := Rule.mem_codes_of_reports hr h
  have hnone : ∀ r ∈ Rule.all, IssueCode.multipleRootElements ∉ r.codes := by decide
  exact hnone r hr hcodes

/-- Issues found on the walk are about nodes, so they leave the choice of roots alone. -/
theorem not_deniesRoots_of_walkIssues {found : List Issue}
    (h : walkIssues c mode nodes = .ok found) : ∀ i ∈ found, ¬ i.DeniesRoots := by
  intro i hi
  rcases (mem_walkIssues h).mp hi with ⟨n, t, p, ⟨_, _, hp⟩, fs, hfs, f, hf, rfl⟩
  rintro (hcode | ⟨_, hpath⟩)
  · exact not_reported_multipleRootElements ((reported_iff hfs).mpr ⟨f, hf, hcode⟩)
  · have hhead := Component.head?_of_mem_paths hp
    rw [show p.1 = [] from hpath] at hhead
    cases hhead

/-- Of the issues about the whole document that come before the walk, only the one about several
roots concerns the choice. -/
theorem exists_deniesRoots_generalIssues {d : Document} :
    (∃ i ∈ generalIssues d, i.DeniesRoots) ↔ ambiguityIssues d ≠ [] := by
  constructor
  · rintro ⟨i, hi, hdenies⟩
    rcases List.mem_append.mp hi with hi | hi
    · -- tags out of balance deny nothing
      rcases List.mem_map.mp hi with ⟨u, _, rfl⟩
      rcases hdenies with hcode | ⟨hcode, _⟩
      · cases hcode
      · cases hcode
    · exact List.ne_nil_of_mem hi
  · intro hne
    rcases List.exists_mem_of_ne_nil _ hne with ⟨i, hi⟩
    refine ⟨i, List.mem_append_right _ hi, Or.inl ?_⟩
    rw [ambiguityIssues] at hi
    split at hi
    · rw [List.mem_singleton.mp hi]
    · cases hi

/-- If there is no root to begin with, the issue denies the choice. -/
theorem deniesRoots_of_roots {d : Document} {i : Issue} (h : roots d = .error i) :
    i.DeniesRoots := by
  obtain ⟨message, rfl⟩ := exists_message_of_roots h
  exact Or.inr ⟨rfl, rfl⟩

/-- The issues deny the choice of roots just if the linter has no roots or is in doubt about them. -/
theorem exists_deniesRoots_iff (h : run c mode html = .ok issues) :
    (∃ i ∈ issues, i.DeniesRoots) ↔
      ¬ ((∃ nodes, roots (Document.read mode html) = .ok nodes) ∧
        ambiguityIssues (Document.read mode html) = []) := by
  cases hroots : roots (Document.read mode html) with
  | error issue =>
    rw [run, documentIssues, hroots] at h
    have hmem : issue ∈ issues := by
      rw [← Except.ok.inj h]
      exact List.mem_append_right _ (List.mem_singleton_self _)
    have hdenies := deniesRoots_of_roots hroots
    simp only [reduceCtorEq, exists_false, false_and, not_false_eq_true, iff_true]
    exact ⟨issue, hmem, hdenies⟩
  | ok nodes =>
    rw [run_eq hroots] at h
    rcases map_eq_ok.mp h with ⟨found, hfound, rfl⟩
    have hwalk := not_deniesRoots_of_walkIssues hfound
    have hgeneral := exists_deniesRoots_generalIssues (d := Document.read mode html)
    simp only [Except.ok.injEq, exists_eq', true_and]
    refine Iff.trans ?_ hgeneral
    constructor
    · rintro ⟨i, hi, hdenies⟩
      rcases List.mem_append.mp hi with hi | hi
      · exact ⟨i, hi, hdenies⟩
      · exact absurd hdenies (hwalk i hi)
    · rintro ⟨i, hi, hdenies⟩
      exact ⟨i, List.mem_append_left _ hi, hdenies⟩

end Lint

namespace StylesheetWriter

variable {w : StylesheetWriter} {mode : RootMode} {html : List Char} {issues : List Issue}

/-- The generator has roots just if the linter has the same and is in no doubt about them. -/
theorem selectRoots_eq_ok_iff {d : Document} {nodes : List Node} :
    selectRoots d = .ok nodes ↔ Lint.roots d = .ok nodes ∧ Lint.ambiguityIssues d = [] := by
  constructor
  · intro h
    cases hmode : d.mode with
    | selection =>
      simp only [selectRoots, hmode] at h
      simp only [Lint.roots, Lint.ambiguityIssues, hmode]
      split at h
      · cases h
      · rename_i hne
        cases h
        exact ⟨if_neg hne, rfl⟩
    | root =>
      simp only [selectRoots, hmode] at h
      simp only [Lint.roots, Lint.ambiguityIssues, hmode]
      split at h
      · cases h
      · rename_i hclear
        refine ⟨?_, if_neg (by simpa using hclear)⟩
        cases hnode : d.rootNode? with
        | none =>
          rw [hnode] at h
          cases h
        | some n =>
          simp only [hnode] at h ⊢
          split at h
          · rename_i hclass
            cases h
            exact if_pos hclass
          · cases h
  · rintro ⟨hroots, hambiguity⟩
    exact selectRoots_of_lintRoots hroots hambiguity

/-- Files are generated just if roots are chosen. -/
theorem exists_generate_iff :
    (∃ files, w.generate mode html = .ok files) ↔
      ∃ roots, selectRoots (Document.read mode html) = .ok roots := by
  rw [generate, generateFor, exists_map_eq_ok]

/-- Where the linter returns issues, the generator gives up just if one of them is about several
roots or is an invalid base class of the document as a whole. Otherwise it returns files, and each
of the roots that it chooses, which are those of the linter, has a tree. -/
theorem generate_fails_iff (h : Lint.run w.conventions mode html = .ok issues) :
    ((∃ e, w.generate mode html = .error e) ↔ ∃ i ∈ issues,
        i.code = .multipleRootElements ∨ (i.code = .invalidBaseClass ∧ i.path = [])) ∧
      ((∃ files, w.generate mode html = .ok files) ↔ ¬ ∃ i ∈ issues,
        i.code = .multipleRootElements ∨ (i.code = .invalidBaseClass ∧ i.path = [])) ∧
      ∀ roots, selectRoots (Document.read mode html) = .ok roots →
        Lint.roots (Document.read mode html) = .ok roots ∧
          ∀ n ∈ roots, ∃ t, w.conventions.build 0 n = some t := by
  have hdenied := Lint.exists_deniesRoots_iff h
  have hchosen : (∃ roots, selectRoots (Document.read mode html) = .ok roots) ↔
      ¬ ∃ i ∈ issues, i.DeniesRoots := by
    rw [hdenied, not_not]
    simp only [selectRoots_eq_ok_iff, exists_and_right]
  have hfails : (∃ e, w.generate mode html = .error e) ↔
      ¬ ∃ files, w.generate mode html = .ok files := by
    cases w.generate mode html <;> simp
  refine ⟨?_, exists_generate_iff.trans hchosen, ?_⟩
  · rw [hfails, exists_generate_iff, hchosen, not_not]
    rfl
  · intro roots hroots
    refine ⟨(selectRoots_eq_ok_iff.mp hroots).1, fun n hn => ?_⟩
    exact Conventions.exists_build ((selectRoots_spec hroots).1 n hn)

/-- Two possible roots: the linter goes on with the first and reports the doubt, the generator
gives up. -/
theorem generate_fails_on_two_roots :
    let w : StylesheetWriter := ⟨{}, {}⟩
    let html := "<p class=a-b></p><p class=c-d></p>".toList
    ∃ issues, Lint.run w.conventions .root html = .ok issues ∧
      ∃ e, w.generate .root html = .error e := by
  intro w html
  have hcomputed : (Lint.run w.conventions .root html).map (List.map Issue.code) =
      .ok [.multipleRootElements] := by decide +kernel
  rcases map_eq_ok.mp hcomputed with ⟨issues, hissues, hcodes⟩
  refine ⟨issues, hissues, (generate_fails_iff hissues).1.mpr ?_⟩
  obtain ⟨i, hi, hcode⟩ : ∃ i ∈ issues, i.code = .multipleRootElements :=
    List.mem_map.mp (hcodes ▸ List.mem_singleton_self _)
  exact ⟨i, hi, Or.inl hcode⟩

end StylesheetWriter

end BlockMarkup
