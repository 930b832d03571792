import BlockMarkup.Proofs.Lint.Elements

/-! # What the linter reports

The issues of a document, in terms of its elements alone. Whether the linter succeeds is settled by
the elements (`exists_run_eq_ok_iff`), and an issue is reported at a chain just if one of the
elements of the chain shows it alone (`exists_issue_iff`), but for Elements outside of Blocks: as
elements of one chain share a node, a Block around one of them hides that others have none.

Main statements:

* `findings_reported_iff`: what is found at an element alone is reported, that exception apart.
* `issues_shown_by_elements`: every issue about a node is found at one of its elements alone.
-/

namespace BlockMarkup.Lint

open Markup (RootMode Document Node)

variable {c : Conventions} {mode : RootMode} {html : List Char} {nodes : List Node}
variable {issues : List Issue}

/-- What the rules find at an element alone. -/
def judged (c : Conventions) (mode : RootMode) (r : Route) : Except Regex.ReadError (List Finding) :=
  findings (alone c mode r)

/-- The issues about the document as a whole. -/
def generalIssues (d : Document) : List Issue := balanceIssues d ++ ambiguityIssues d

/-- The issue is about the document as a whole. -/
structure IsGeneral (i : Issue) : Prop where
  path : i.path = []
  base : i.base = ""
  code : i.code = .invalidBaseClass ∨ i.code = .multipleRootElements ∨ i.code = .unbalancedHtml

theorem isGeneral_of_mem {d : Document} : ∀ i ∈ generalIssues d, IsGeneral i := by
  intro i hi
  rcases List.mem_append.mp hi with hi | hi
  · rcases List.mem_map.mp hi with ⟨u, _, rfl⟩
    exact ⟨rfl, rfl, Or.inr (Or.inr rfl)⟩
  · rw [ambiguityIssues] at hi
    split at hi
    · rw [List.mem_singleton.mp hi]
      exact ⟨rfl, rfl, Or.inr (Or.inl rfl)⟩
    · cases hi

/-- If there is no root to begin with, the issue says why, and names no place. -/
theorem exists_message_of_roots {d : Document} {i : Issue} (h : roots d = .error i) :
    ∃ message, i = { code := .invalidBaseClass, message := message } := by
  rw [roots] at h
  dsimp only at h
  split at h
  · split at h
    · cases h
      exact ⟨_, rfl⟩
    · split at h
      · cases h
      · cases h
        exact ⟨_, rfl⟩
  · split at h
    · cases h
      exact ⟨_, rfl⟩
    · cases h

theorem isGeneral_of_roots {d : Document} {i : Issue} (h : roots d = .error i) : IsGeneral i := by
  obtain ⟨message, rfl⟩ := exists_message_of_roots h
  exact ⟨rfl, rfl, Or.inl rfl⟩

theorem hasClass_of_roots {d : Document} (h : roots d = .ok nodes) :
    ∀ n ∈ nodes, n.hasClass = true := by
  rw [roots] at h
  dsimp only at h
  split at h
  · split at h
    · cases h
    · split at h
      · rename_i hclass
        cases h
        simpa using hclass
      · cases h
  · split at h
    · cases h
    · cases h
      exact fun n hn => Document.hasClass_of_mem_selectionRoots hn

/-! ## The nodes of a document -/

/-- The node belongs to a tree that is linted. -/
def IsLinted (c : Conventions) (nodes : List Node) (n : Node) (t : Component)
    (p : List String × Component) : Prop :=
  n ∈ nodes ∧ c.build 0 n = some t ∧ p ∈ t.paths

theorem mem_visits_of_roots {v : List String × NodeContext} :
    v ∈ visitsIn c mode [] false (nodes.filterMap (c.build 0)) ↔
      ∃ n t p, IsLinted c nodes n t p ∧ v = (p.1, merged c mode t p) := by
  rw [mem_visitsIn]
  constructor
  · rintro ⟨t, ht, hv⟩
    rcases List.mem_filterMap.mp ht with ⟨n, hn, hbuild⟩
    have hcoherent := Conventions.treeCoherent_of_build 0 n t hbuild
    rcases (mem_visits hcoherent _ _ _).mp hv with ⟨p, hp, rfl⟩
    exact ⟨n, t, p, ⟨hn, hbuild, hp⟩, rfl⟩
  · rintro ⟨n, t, p, ⟨hn, hbuild, hp⟩, rfl⟩
    have hcoherent := Conventions.treeCoherent_of_build 0 n t hbuild
    exact ⟨t, List.mem_filterMap.mpr ⟨n, hn, hbuild⟩,
      (mem_visits hcoherent _ _ _).mpr ⟨p, hp, rfl⟩⟩

/-- The issues of the nodes below the roots. -/
def walkIssues (c : Conventions) (mode : RootMode) (nodes : List Node) :
    Except Regex.ReadError (List Issue) :=
  treesIssues c mode [] false (nodes.filterMap (c.build 0))

/-- Linting from the roots on. -/
theorem run_eq (hroots : roots (Document.read mode html) = .ok nodes) :
    run c mode html =
      (walkIssues c mode nodes).map (generalIssues (Document.read mode html) ++ ·) := by
  rw [run, documentIssues, hroots, Document.mode_of_read]
  rfl

/-- The walk succeeds just if the rules do at every node. -/
theorem exists_walkIssues_eq_ok_iff :
    (∃ found, walkIssues c mode nodes = .ok found) ↔
      ∀ n t p, IsLinted c nodes n t p → ∃ fs, findings (merged c mode t p) = .ok fs := by
  rw [walkIssues, treesIssues_eq, exists_collect_eq_ok]
  simp only [mem_visits_of_roots, nodeIssues_eq, exists_map_eq_ok]
  constructor
  · exact fun h n t p hlinted => h (p.1, merged c mode t p) ⟨n, t, p, hlinted, rfl⟩
  · rintro h _ ⟨n, t, p, hlinted, rfl⟩
    exact h n t p hlinted

/-- The walk finds what the rules find at the nodes. -/
theorem mem_walkIssues {found : List Issue} (h : walkIssues c mode nodes = .ok found) {i : Issue} :
    i ∈ found ↔ ∃ n t p, IsLinted c nodes n t p ∧ ∃ fs, findings (merged c mode t p) = .ok fs ∧
      ∃ f ∈ fs, (⟨f.code, f.message, p.2.base, p.1⟩ : Issue) = i := by
  rw [walkIssues, treesIssues_eq] at h
  simp only [mem_of_collect_eq_ok h, mem_visits_of_roots, nodeIssues_eq, map_eq_ok]
  constructor
  · rintro ⟨_, ⟨n, t, p, hlinted, rfl⟩, _, ⟨fs, hfs, rfl⟩, hi⟩
    exact ⟨n, t, p, hlinted, fs, hfs, List.mem_map.mp hi⟩
  · rintro ⟨n, t, p, hlinted, fs, hfs, hi⟩
    exact ⟨_, ⟨n, t, p, hlinted, rfl⟩, _, ⟨fs, hfs, rfl⟩, List.mem_map.mpr hi⟩

/-- A node of a tree is the node of an element. -/
theorem exists_route (hroots : roots (Document.read mode html) = .ok nodes) {n : Node}
    {t : Component} {p : List String × Component} (h : IsLinted c nodes n t p) :
    ∃ r ∈ n.routes, (r.Reached 0 ∧ r.chain = p.1) ∧ Alike (merged c mode t p) (alone c mode r) := by
  rcases h with ⟨hn, hbuild, hp⟩
  have hnamed := Document.named_of_roots (Document.named_of_read mode html) hroots n hn
  have hpools := pools_of_mem_paths mode hnamed hbuild hp
  rcases hpools.inhabited with ⟨_, r, hr, hchain, rfl⟩
  exact ⟨r, hr, hchain, hpools.alike _ ⟨r, hr, hchain, rfl⟩⟩

/-- An element that is reached has a node. -/
theorem exists_isLinted (hroots : roots (Document.read mode html) = .ok nodes) {n : Node}
    (hn : n ∈ nodes) {r : Route} (hr : r ∈ n.routes) (hreached : r.Reached 0) :
    ∃ t p, IsLinted c nodes n t p ∧ r.chain = p.1 ∧ Alike (merged c mode t p) (alone c mode r) := by
  obtain ⟨t, hbuild⟩ := Conventions.exists_build (c := c) (hasClass_of_roots hroots n hn)
  rcases List.mem_map.mp ((Conventions.mem_chains_iff hbuild).mpr ⟨r, hr, hreached, rfl⟩) with
    ⟨p, hp, hchain⟩
  have hnamed := Document.named_of_roots (Document.named_of_read mode html) hroots n hn
  exact ⟨t, p, ⟨hn, hbuild, hp⟩, hchain.symm,
    (pools_of_mem_paths mode hnamed hbuild hp).alike _ ⟨r, hr, ⟨hreached, hchain.symm⟩, rfl⟩⟩

/-- The linter succeeds just if all elements can be judged. -/
theorem exists_run_eq_ok_iff (hroots : roots (Document.read mode html) = .ok nodes) :
    (∃ issues, run c mode html = .ok issues) ↔
      ∀ n ∈ nodes, ∀ r ∈ n.routes, r.Reached 0 → ∃ fs, judged c mode r = .ok fs := by
  rw [run_eq hroots, exists_map_eq_ok, exists_walkIssues_eq_ok_iff]
  constructor
  · intro h n hn r hr hreached
    rcases exists_isLinted hroots hn hr hreached with ⟨t, p, hlinted, _, halike⟩
    exact (settled_findings _ _ halike).mp (h n t p hlinted)
  · intro h n t p hlinted
    rcases exists_route hroots hlinted with ⟨r, hr, ⟨hreached, _⟩, halike⟩
    exact (settled_findings _ _ halike).mpr (h n hlinted.1 r hr hreached)

/-- The issues of a kind at a chain, in terms of elements alone: there is one just if below some root
an element of the chain shows it and, where the issue is an Element outside of Blocks, no element of
a chain on the way acts as a Block. -/
theorem exists_issue_iff (hroots : roots (Document.read mode html) = .ok nodes)
    (h : run c mode html = .ok issues) {code : IssueCode} {chain : List String}
    (hchain : chain ≠ []) :
    (∃ i ∈ issues, i.code = code ∧ i.path = chain) ↔
      ∃ n ∈ nodes, (∃ r ∈ n.routes, (r.Reached 0 ∧ r.chain = chain) ∧
        Reported (alone c mode r) code) ∧
          (code = .elementWithoutBlockAncestor → ¬ c.BlockOver n chain) := by
  rw [run_eq hroots] at h
  rcases map_eq_ok.mp h with ⟨found, hfound, rfl⟩
  have hnamed := Document.named_of_roots (Document.named_of_read mode html) hroots
  -- a general issue has no chain
  have hwalk : (∃ i ∈ generalIssues (Document.read mode html) ++ found,
      i.code = code ∧ i.path = chain) ↔ ∃ i ∈ found, i.code = code ∧ i.path = chain := by
    constructor
    · rintro ⟨i, hi, hcode, hpath⟩
      rcases List.mem_append.mp hi with hi | hi
      · exact absurd (hpath.symm.trans (isGeneral_of_mem i hi).path) hchain
      · exact ⟨i, hi, hcode, hpath⟩
    · rintro ⟨i, hi, hcode⟩
      exact ⟨i, List.mem_append_right _ hi, hcode⟩
  rw [hwalk]
  constructor
  · rintro ⟨i, hi, rfl, rfl⟩
    rcases (mem_walkIssues hfound).mp hi with ⟨n, t, p, ⟨hn, hbuild, hp⟩, fs, hfs, f, hf, rfl⟩
    exact ⟨n, hn, (reported_merged_iff (hnamed n hn) hbuild hp).mp
      ((reported_iff hfs).mpr ⟨f, hf, rfl⟩)⟩
  · rintro ⟨n, hn, ⟨r, hr, ⟨hreached, rfl⟩, hreported⟩, hover⟩
    rcases exists_isLinted hroots hn hr hreached with ⟨t, p, ⟨_, hbuild, hp⟩, hrp, _⟩
    obtain ⟨fs, hfs⟩ := exists_walkIssues_eq_ok_iff.mp ⟨_, hfound⟩ n t p ⟨hn, hbuild, hp⟩
    have hmerged : Reported (merged c mode t p) code :=
      (reported_merged_iff (hnamed n hn) hbuild hp).mpr
        ⟨⟨r, hr, ⟨hreached, hrp⟩, hreported⟩, hrp ▸ hover⟩
    rcases (reported_iff hfs).mp hmerged with ⟨f, hf, rfl⟩
    exact ⟨_, (mem_walkIssues hfound).mpr ⟨n, t, p, ⟨hn, hbuild, hp⟩, fs, hfs, f, hf, rfl⟩, rfl,
      hrp.symm⟩

/-- Elements of one chain are in one place and have one first class. -/
theorem alike_alone {r r' : Route} (h : r.here.classTokens ≠ []) (h' : r'.here.classTokens ≠ [])
    (hchain : r.chain = r'.chain) : Alike (alone c mode r) (alone c mode r') := by
  rcases Route.chain_eq h with ⟨init, hinit⟩
  rcases Route.chain_eq h' with ⟨init', hinit'⟩
  have hbase : r.base = r'.base := by
    rw [hinit, hinit'] at hchain
    exact (List.append_singleton_inj.mp hchain).2
  exact ⟨rfl, rfl, hbase, by rw [alone, alone, hchain]; rfl, by rw [alone, alone, hchain]; rfl⟩

/-! ## What is shown is reported -/

/-- The linter succeeds just if all elements can be judged alone, and then whatever is found at an
element alone is reported at its chain, but for one thing: that an Element is outside of Blocks is
reported just if, below some root with elements of this chain, no element of a chain on the way acts
as a Block. -/
theorem findings_reported_iff (hroots : roots (Document.read mode html) = .ok nodes) :
    ((∃ issues, run c mode html = .ok issues) ↔
      ∀ n ∈ nodes, ∀ r ∈ n.routes, r.Reached 0 → ∃ fs, judged c mode r = .ok fs) ∧
    ∀ issues, run c mode html = .ok issues →
      ∀ n ∈ nodes, ∀ r ∈ n.routes, r.Reached 0 → ∀ fs, judged c mode r = .ok fs → ∀ f ∈ fs,
        ((∃ i ∈ issues, i.code = f.code ∧ i.path = r.chain) ↔
          (f.code = .elementWithoutBlockAncestor →
            ∃ n' ∈ nodes, (∃ r' ∈ n'.routes, r'.Reached 0 ∧ r'.chain = r.chain) ∧
              ¬ c.BlockOver n' r.chain)) := by
  refine ⟨exists_run_eq_ok_iff hroots, ?_⟩
  intro issues hissues n hn r hr hreached fs hfs f hf
  have hne : r.chain ≠ [] := by
    rcases Route.chain_eq hreached.1 with ⟨init, hinit⟩
    simp [hinit]
  have hreported : Reported (alone c mode r) f.code := (reported_iff hfs).mpr ⟨f, hf, rfl⟩
  rw [exists_issue_iff hroots hissues hne]
  constructor
  · rintro ⟨n', hn', ⟨r', hr', hchain, _⟩, hover⟩ hcode
    exact ⟨n', hn', ⟨r', hr', hchain⟩, hover hcode⟩
  · intro h
    by_cases hcode : f.code = .elementWithoutBlockAncestor
    · -- the other element is an Element too, and nothing around it acts as a Block
      rcases h hcode with ⟨n', hn', ⟨r', hr', hreached', hchain⟩, hover⟩
      rw [hcode] at hreported ⊢
      have hkind := (reported_elementWithoutBlockAncestor.mp hreported).1
      rw [(alike_alone hreached.1 hreached'.1 hchain.symm).baseKind] at hkind
      have hinside : (alone c mode r').insideBlock = false := decide_eq_false fun hinside =>
        hover (hchain ▸ blockOver_of_insideBlock hr' hreached' hinside)
      exact ⟨n', hn', ⟨r', hr', ⟨hreached', hchain⟩,
        reported_elementWithoutBlockAncestor.mpr ⟨hkind, hinside⟩⟩, fun _ => hover⟩
    · exact ⟨n, hn, ⟨r, hr, ⟨hreached, rfl⟩, hreported⟩, fun he => absurd he hcode⟩

/-- The chains of the elements that are reached, each with the kinds of what is found at the
element alone. -/
def judgements (c : Conventions) (mode : RootMode) (nodes : List Node) :
    List (List String × Except Regex.ReadError (List IssueCode)) :=
  ((nodes.flatMap Node.routes).filter (·.Reached 0)).map fun r =>
    (r.chain, (judged c mode r).map (List.map Finding.code))

theorem mem_judgements {chain : List String} {codes : Except Regex.ReadError (List IssueCode)} :
    (chain, codes) ∈ judgements c mode nodes ↔ ∃ n ∈ nodes, ∃ r ∈ n.routes,
      r.Reached 0 ∧ r.chain = chain ∧ (judged c mode r).map (List.map Finding.code) = codes := by
  simp only [judgements, List.mem_map, List.mem_filter, List.mem_flatMap, decide_eq_true_eq,
    Prod.mk.injEq]
  constructor
  · rintro ⟨r, ⟨⟨n, hn, hr⟩, hreached⟩, hchain, hcodes⟩
    exact ⟨n, hn, r, hr, hreached, hchain, hcodes⟩
  · rintro ⟨n, hn, r, hr, hreached, hchain, hcodes⟩
    exact ⟨r, ⟨⟨n, hn, hr⟩, hreached⟩, hchain, hcodes⟩

/-- An Element below a third-party class is reported. -/
theorem findings_reported_of_lone_element :
    let c : Conventions := { external := { classes := ["x"] } }
    let html := "<p class=x><i class=e></i></p>".toList
    ∃ nodes issues, roots (Document.read .root html) = .ok nodes ∧ run c .root html = .ok issues ∧
      ∃ n ∈ nodes, ∃ r ∈ n.routes, r.Reached 0 ∧ r.chain = ["x", "e"] ∧
        ∃ fs, judged c .root r = .ok fs ∧ ∃ f ∈ fs, f.code = .elementWithoutBlockAncestor ∧
          ∃ i ∈ issues, i.code = f.code ∧ i.path = ["x", "e"] := by
  intro c html
  have hcomputed : ((roots (Document.read .root html)).map fun nodes =>
      (judgements c .root nodes, nodes.map fun n => decide (c.BlockOver n ["x", "e"]))) =
      .ok ([(["x"], .ok []), (["x", "e"], .ok [.elementWithoutBlockAncestor])], [false]) := by
    decide +kernel
  rcases map_eq_ok.mp hcomputed with ⟨nodes, hroots, hnodes⟩
  rcases Prod.mk.inj hnodes with ⟨hjudged, hover⟩
  -- both elements can be judged, so there are issues
  have hall : ∀ n ∈ nodes, ∀ r ∈ n.routes, r.Reached 0 → ∃ fs, judged c .root r = .ok fs := by
    intro n hn r hr hreached
    have hmem : (r.chain, (judged c .root r).map (List.map Finding.code)) ∈
        judgements c .root nodes := mem_judgements.mpr ⟨n, hn, r, hr, hreached, rfl, rfl⟩
    rw [hjudged, List.mem_pair, Prod.mk.injEq, Prod.mk.injEq] at hmem
    rcases hmem with ⟨_, hcodes⟩ | ⟨_, hcodes⟩
    · exact exists_map_eq_ok.mp ⟨_, hcodes⟩
    · exact exists_map_eq_ok.mp ⟨_, hcodes⟩
  rcases (findings_reported_iff hroots).1.mpr hall with ⟨issues, hissues⟩
  have hmem : (["x", "e"], .ok [.elementWithoutBlockAncestor]) ∈ judgements c .root nodes := by
    rw [hjudged]
    decide
  rcases mem_judgements.mp hmem with ⟨n, hn, r, hr, hreached, hchain, hcodes⟩
  rcases map_eq_ok.mp hcodes with ⟨fs, hfs, hcodes⟩
  obtain ⟨f, hf, hcode⟩ : ∃ f ∈ fs, f.code = .elementWithoutBlockAncestor :=
    List.mem_map.mp (hcodes ▸ List.mem_singleton_self _)
  refine ⟨nodes, issues, hroots, hissues, n, hn, r, hr, hreached, hchain, fs, hfs, f, hf, hcode, ?_⟩
  rw [← hchain]
  refine ((findings_reported_iff hroots).2 issues hissues n hn r hr hreached fs hfs f hf).mpr
    fun _ => ⟨n, hn, ⟨r, hr, hreached, rfl⟩, ?_⟩
  have hnone := List.mem_map_of_mem (f := fun n => decide (c.BlockOver n ["x", "e"])) hn
  rw [hover, List.mem_singleton, decide_eq_false_iff_not] at hnone
  rwa [hchain]

/-- An Element is not reported if another element of the class above it is a Block, though nothing
around the Element is. -/
theorem finding_hidden_by_sibling :
    ¬ ∀ (c : Conventions) mode html nodes issues,
      roots (Document.read mode html) = .ok nodes → run c mode html = .ok issues →
        ∀ n ∈ nodes, ∀ r ∈ n.routes, r.Reached 0 → ∀ fs, judged c mode r = .ok fs → ∀ f ∈ fs,
          ∃ i ∈ issues, i.code = f.code ∧ i.path = r.chain := by
  intro h
  let c : Conventions := { external := { classes := ["x"] } }
  let html := "<p class=x><b class=x><i class=e></i></b><b class=\"x c-d\"></b></p>".toList
  -- the document is read once for both
  have hcomputed : (fun d => ((roots d).map (judgements c .root),
      (documentIssues c d).map (List.map Issue.code))) (Document.read .root html) =
        (.ok [(["x"], .ok []), (["x", "x"], .ok []),
            (["x", "x", "e"], .ok [.elementWithoutBlockAncestor]),
            (["x", "x"], .ok [.invalidBaseClass])],
          .ok [.invalidBaseClass]) := by decide +kernel
  rcases Prod.mk.inj hcomputed with ⟨hjudged, hrun⟩
  rcases map_eq_ok.mp hjudged with ⟨nodes, hroots, hjudged⟩
  rcases map_eq_ok.mp hrun with ⟨issues, hissues, hreported⟩
  have hmem : (["x", "x", "e"], .ok [.elementWithoutBlockAncestor]) ∈
      judgements c .root nodes := by
    rw [hjudged]
    decide
  rcases mem_judgements.mp hmem with ⟨n, hn, r, hr, hreached, hchain, hcodes⟩
  rcases map_eq_ok.mp hcodes with ⟨fs, hfs, hcodes⟩
  obtain ⟨f, hf, hcode⟩ : ∃ f ∈ fs, f.code = .elementWithoutBlockAncestor :=
    List.mem_map.mp (hcodes ▸ List.mem_singleton_self _)
  rcases h c .root html nodes issues hroots hissues n hn r hr hreached fs hfs f hf with
    ⟨i, hi, hicode, _⟩
  have hmem := List.mem_map_of_mem (f := Issue.code) hi
  rw [hreported, hicode, hcode] at hmem
  exact absurd hmem (by decide)

/-! ## What is reported is shown -/

/-- General issues come first, and every other issue is about the last class of its path: some
element of the chain shows an issue of the kind alone. -/
theorem issues_shown_by_elements (h : run c mode html = .ok issues) :
    ∃ general found, issues = general ++ found ∧ (∀ i ∈ general, IsGeneral i) ∧
      ∀ i ∈ found, i.path.getLast? = some i.base ∧
        ∃ nodes, roots (Document.read mode html) = .ok nodes ∧
          ∃ n ∈ nodes, ∃ r ∈ n.routes, r.Reached 0 ∧ r.chain = i.path ∧
            ∃ fs, judged c mode r = .ok fs ∧ ∃ f ∈ fs, f.code = i.code := by
  cases hroots : roots (Document.read mode html) with
  | error issue =>
    rw [run, documentIssues, hroots] at h
    refine ⟨issues, [], (List.append_nil _).symm, ?_, by simp⟩
    rw [← Except.ok.inj h]
    intro i hi
    rcases List.mem_append.mp hi with hi | hi
    · exact isGeneral_of_mem i hi
    · exact List.mem_singleton.mp hi ▸ isGeneral_of_roots hroots
  | ok nodes =>
    have hjudged := (exists_run_eq_ok_iff hroots).mp ⟨issues, h⟩
    rw [run_eq hroots] at h
    rcases map_eq_ok.mp h with ⟨found, hfound, rfl⟩
    refine ⟨_, found, rfl, isGeneral_of_mem, ?_⟩
    intro i hi
    rcases (mem_walkIssues hfound).mp hi with ⟨n, t, p, ⟨hn, hbuild, hp⟩, fs, hfs, f, hf, rfl⟩
    have hnamed := Document.named_of_roots (Document.named_of_read mode html) hroots n hn
    refine ⟨((Conventions.treeCoherent_of_build 0 n t hbuild).of_mem_paths p hp).1, nodes, rfl, n,
      hn, ?_⟩
    rcases ((reported_merged_iff hnamed hbuild hp).mp
      ((reported_iff hfs).mpr ⟨f, hf, rfl⟩)).1 with ⟨r, hr, ⟨hreached, hchain⟩, hreported⟩
    obtain ⟨fs', hfs'⟩ := hjudged n hn r hr hreached
    exact ⟨r, hr, hreached, hchain, fs', hfs', (reported_iff hfs').mp hreported⟩

/-- The Element below a third-party class again: the issue at its chain is what it shows alone. -/
theorem issue_shown_by_lone_element :
    let c : Conventions := { external := { classes := ["x"] } }
    let html := "<p class=x><i class=e></i></p>".toList
    ∃ issues, run c .root html = .ok issues ∧
      ∃ nodes, roots (Document.read .root html) = .ok nodes ∧
        ∃ n ∈ nodes, ∃ r ∈ n.routes, r.Reached 0 ∧ r.chain = ["x", "e"] ∧
          ∃ fs, judged c .root r = .ok fs ∧ ∃ f ∈ fs, f.code = .elementWithoutBlockAncestor := by
  intro c html
  have hcomputed : (run c .root html).map (List.map fun i => (i.code, i.path)) =
      .ok [(.elementWithoutBlockAncestor, ["x", "e"])] := by decide +kernel
  rcases map_eq_ok.mp hcomputed with ⟨issues, hissues, hcodes⟩
  obtain ⟨i, hi, he⟩ : ∃ i ∈ issues, (i.code, i.path) = (.elementWithoutBlockAncestor, ["x", "e"]) :=
    List.mem_map.mp (hcodes ▸ List.mem_singleton_self _)
  rcases Prod.mk.inj he with ⟨hcode, hpath⟩
  rcases issues_shown_by_elements hissues with ⟨general, found, rfl, hgeneral, hfound⟩
  refine ⟨_, hissues, ?_⟩
  -- the issue has a path, so it is not a general one
  rcases List.mem_append.mp hi with hi | hi
  · rw [(hgeneral i hi).path] at hpath
    cases hpath
  · rcases hfound i hi with ⟨_, hshown⟩
    rwa [hcode, hpath] at hshown

end BlockMarkup.Lint
