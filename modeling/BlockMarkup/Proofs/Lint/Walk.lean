import BlockMarkup.Proofs.Lint.Clean

/-! # The walk of the linter

`visits` are the nodes of a tree as the rules see them, in the order of the walk, and the issues of
the tree are those that the rules find at them (`treesIssues_eq`). In a tree that is built, there
is one visit for every way through the tree, and of all that stands above a node the visit keeps
the class next above it and whether any node on the way acts as a Block (`mem_visits`).
-/

namespace BlockMarkup

open Markup (RootMode)
open Component (base)

namespace Conventions

/-- Whether a node counts as a Block for what stands below it. -/
def actsAsBlock (c : Conventions) (t : Component) : Bool :=
  NodeContext.actsAsBlock { conventions := c, mode := .root, component := t }

/-- A node that acts as a Block stands on the way, above its end. -/
def BlockAbove (c : Conventions) (t : Component) (chain : List String) : Prop :=
  ∃ q ∈ t.paths, (q.1 <+: chain ∧ q.1 ≠ chain) ∧ c.actsAsBlock q.2 = true

instance (c : Conventions) (t : Component) (chain : List String) :
    Decidable (c.BlockAbove t chain) :=
  inferInstanceAs (Decidable (∃ q ∈ t.paths, (q.1 <+: chain ∧ q.1 ≠ chain) ∧
    c.actsAsBlock q.2 = true))

variable {c : Conventions} {t : Component}

theorem not_blockAbove_base : ¬ c.BlockAbove t [t.base] := by
  rintro ⟨q, hq, ⟨hbegins, hne⟩, _⟩
  have hhead := Component.head?_of_mem_paths hq
  rcases List.prefix_cons_iff.mp hbegins with hnil | ⟨rest, hq', hrest⟩
  · simp [hnil] at hhead
  · exact hne (by rw [hq', List.prefix_nil.mp hrest])

/-- What stands above a node below the root: the root, or what stands above it below the root. -/
theorem TreeCoherent.blockAbove_cons (ht : c.TreeCoherent t) {y : Component} (hy : y ∈ t.ordered)
    {p : List String × Component} (hp : p ∈ y.paths) :
    c.BlockAbove t (t.base :: p.1) ↔ c.actsAsBlock t = true ∨ c.BlockAbove y p.1 := by
  have hhead := Component.head?_of_mem_paths hp
  constructor
  · rintro ⟨q, hq, ⟨hbegins, hne⟩, hacts⟩
    rcases Component.mem_paths.mp hq with rfl | ⟨z, hz, q, hqz, rfl⟩
    · exact Or.inl hacts
    · -- the way through `z` begins like the one through `y`
      have hbelow : q.1 <+: p.1 := (List.prefix_cons_inj _).mp hbegins
      rcases hbelow with ⟨more, hmore⟩
      rw [← hmore, List.head?_append, Component.head?_of_mem_paths hqz] at hhead
      obtain rfl : z = y := List.inj_on_of_nodup_map ht.root.bases_nodup hz hy
        (Option.some.inj hhead)
      exact Or.inr ⟨q, hqz, ⟨⟨more, hmore⟩, fun he => hne (congrArg _ he)⟩, hacts⟩
  · rintro (hacts | ⟨q, hq, ⟨hbegins, hne⟩, hacts⟩)
    · refine ⟨([t.base], t), Component.mem_paths.mpr (Or.inl rfl), ⟨?_, ?_⟩, hacts⟩
      · exact ⟨p.1, rfl⟩
      · intro he
        simp [← (List.cons.inj he).2] at hhead
    · refine ⟨(t.base :: q.1, q.2), Component.mem_paths.mpr (Or.inr ⟨y, hy, q, hq, rfl⟩),
        ⟨?_, ?_⟩, hacts⟩
      · exact (List.prefix_cons_inj _).mpr hbegins
      · exact fun he => hne (List.cons.inj he).2

end Conventions

namespace Lint

variable {c : Conventions} {mode : RootMode}

/-! ## Visits -/

mutual

/-- The nodes of a tree in the order of the walk, each with its path and as the rules see it. -/
def visits (c : Conventions) (mode : RootMode) (above : List String) (insideBlock : Bool) :
    Component → List (List String × NodeContext)
  | .mk b i m v s nested independents o t r d =>
    let x := contextAt c mode above insideBlock (.mk b i m v s nested independents o t r d)
    (above ++ [b], x) ::
      (visitsIn c mode (above ++ [b]) (x.actsAsBlock || insideBlock) nested ++
        visitsIn c mode (above ++ [b]) (x.actsAsBlock || insideBlock) independents)

/-- The nodes of trees side by side. -/
def visitsIn (c : Conventions) (mode : RootMode) (above : List String) (insideBlock : Bool) :
    List Component → List (List String × NodeContext)
  | [] => []
  | x :: rest => visits c mode above insideBlock x ++ visitsIn c mode above insideBlock rest

end

mutual

/-- The issues of a tree are those of its visits. -/
theorem treeIssues_eq (above : List String) (insideBlock : Bool) : ∀ t : Component,
    treeIssues c mode above insideBlock t =
      collect (fun v => nodeIssues v.2 v.1) (visits c mode above insideBlock t)
  | .mk b i m v s nested independents o t r d => by
    have hdef : treeIssues c mode above insideBlock (.mk b i m v s nested independents o t r d) =
        let x := contextAt c mode above insideBlock (.mk b i m v s nested independents o t r d)
        nodeIssues x (above ++ [b]) >>= fun here =>
          treesIssues c mode (above ++ [b]) (x.actsAsBlock || insideBlock) nested >>= fun elements =>
            treesIssues c mode (above ++ [b]) (x.actsAsBlock || insideBlock) independents >>=
              fun blocks => .ok (here ++ elements ++ blocks) := by
      rw [treeIssues]
      rfl
    rw [hdef, visits, collect_cons, collect_append, ← treesIssues_eq _ _ nested,
      ← treesIssues_eq _ _ independents]
    refine congrArg _ (funext fun here => ?_)
    cases treesIssues c mode (above ++ [b]) _ nested with
    | error e => rfl
    | ok elements =>
      cases treesIssues c mode (above ++ [b]) _ independents with
      | error e => rfl
      | ok blocks => exact congrArg Except.ok (List.append_assoc ..)

theorem treesIssues_eq (above : List String) (insideBlock : Bool) : ∀ ts : List Component,
    treesIssues c mode above insideBlock ts =
      collect (fun v => nodeIssues v.2 v.1) (visitsIn c mode above insideBlock ts)
  | [] => rfl
  | x :: rest => by
    rw [treesIssues, visitsIn, collect_append, treeIssues_eq, treesIssues_eq]
    refine congrArg _ (funext fun first => ?_)
    cases collect _ (visitsIn c mode above insideBlock rest) <;> rfl

end

theorem visits_def (above : List String) (insideBlock : Bool) (t : Component) :
    visits c mode above insideBlock t =
      (above ++ [t.base], contextAt c mode above insideBlock t) ::
        (visitsIn c mode (above ++ [t.base]) (c.actsAsBlock t || insideBlock) t.nested ++
          visitsIn c mode (above ++ [t.base]) (c.actsAsBlock t || insideBlock) t.independents) := by
  cases t
  rw [visits]
  rfl

theorem mem_visitsIn {above : List String} {insideBlock : Bool} {ts : List Component}
    {v : List String × NodeContext} :
    v ∈ visitsIn c mode above insideBlock ts ↔ ∃ t ∈ ts, v ∈ visits c mode above insideBlock t := by
  induction ts with
  | nil => simp [visitsIn]
  | cons t rest ih => simp [visitsIn, ih]

/-- In a coherent tree every child is visited, as an Element or as a Block. -/
theorem mem_visits_cons {above : List String} {insideBlock : Bool} {t : Component}
    (ht : c.Coherent t) {v : List String × NodeContext} :
    v ∈ visits c mode above insideBlock t ↔
      v = (above ++ [t.base], contextAt c mode above insideBlock t) ∨
        ∃ y ∈ t.ordered, v ∈ visits c mode (above ++ [t.base]) (c.actsAsBlock t || insideBlock) y := by
  rw [visits_def, List.mem_cons, List.mem_append, mem_visitsIn, mem_visitsIn, ht.nested_eq,
    ht.independents_eq]
  refine or_congr_right ⟨?_, ?_⟩
  · rintro (⟨y, hy, hv⟩ | ⟨y, hy, hv⟩)
    · exact ⟨y, (List.mem_filter.mp hy).1, hv⟩
    · exact ⟨y, (List.mem_filter.mp hy).1, hv⟩
  · rintro ⟨y, hy, hv⟩
    cases hi : y.independent with
    | false => exact Or.inl ⟨y, by simp [hy, hi], hv⟩
    | true => exact Or.inr ⟨y, by simp [hy, hi], hv⟩

/-- The visits are the ways through the tree. -/
theorem mem_visits {t : Component} (ht : c.TreeCoherent t) :
    ∀ above insideBlock v, v ∈ visits c mode above insideBlock t ↔
      ∃ p ∈ t.paths, v = (above ++ p.1, contextAt c mode (above ++ p.1.dropLast)
        (insideBlock || decide (c.BlockAbove t p.1)) p.2) := by
  refine ht.induction ?_
  clear ht t
  intro t ht ih above insideBlock v
  have hroot : (insideBlock || decide (c.BlockAbove t [t.base])) = insideBlock := by
    rw [decide_eq_false Conventions.not_blockAbove_base, Bool.or_false]
  -- a way below the root, seen from the root and from the child
  have hbelow : ∀ y ∈ t.ordered, ∀ q ∈ y.paths,
      ((above ++ [t.base]) ++ q.1, contextAt c mode ((above ++ [t.base]) ++ q.1.dropLast)
        ((c.actsAsBlock t || insideBlock) || decide (c.BlockAbove y q.1)) q.2) =
      (above ++ t.base :: q.1, contextAt c mode (above ++ (t.base :: q.1).dropLast)
        (insideBlock || decide (c.BlockAbove t (t.base :: q.1))) q.2) := by
    intro y hy q hq
    have hne : q.1 ≠ [] := by
      intro hnil
      have hhead := Component.head?_of_mem_paths hq
      simp [hnil] at hhead
    rw [List.dropLast_cons_of_ne_nil hne, List.append_assoc, List.append_assoc,
      decide_eq_decide.mpr (ht.blockAbove_cons hy hq), Bool.decide_or, Bool.decide_eq_true,
      ← Bool.or_assoc, Bool.or_comm insideBlock]
    rfl
  rw [mem_visits_cons ht.root]
  constructor
  · rintro (rfl | ⟨y, hy, hv⟩)
    · exact ⟨([t.base], t), Component.mem_paths.mpr (Or.inl rfl), by rw [hroot]; simp⟩
    · rcases (ih y hy _ _ v).mp hv with ⟨q, hq, rfl⟩
      exact ⟨_, Component.mem_paths.mpr (Or.inr ⟨y, hy, q, hq, rfl⟩), hbelow y hy q hq⟩
  · rintro ⟨p, hp, rfl⟩
    rcases Component.mem_paths.mp hp with rfl | ⟨y, hy, q, hq, rfl⟩
    · exact Or.inl (by rw [hroot]; simp)
    · exact Or.inr ⟨y, hy, (ih y hy _ _ _).mpr ⟨q, hq, (hbelow y hy q hq).symm⟩⟩

end Lint

end BlockMarkup
