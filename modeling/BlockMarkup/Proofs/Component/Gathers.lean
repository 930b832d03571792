import BlockMarkup.Proofs.Component.Invariant
import BlockMarkup.Proofs.Component.Route

/-! # Trees and what they stand for

`Gathers fits os x` says that the node `x` stands for the occurrences `os`: its own elements are
those whose chain ends at it, its children are the classes that come next, in the order in which
they are first met, and every child stands for the occurrences inside it. `fits` relates a node
to its own elements and may be any relation that mergers respect.

Two nodes of one class merge into a node that stands for the occurrences of both
(`Gathers.merge`), and a list of trees into one tree for every class (`GathersAll.dedup`). What a
tree says about chains follows from the relation alone (`Gathers.mem_chains`).
-/

namespace BlockMarkup

open Markup (Node)
open Component (base dedup)
open Occurrences

namespace Component

mutual

/-- The nodes of a tree, each with the classes on the way to it, its own last. -/
def paths : Component → List (List String × Component)
  | .mk b i m v s n is ordered t r d =>
    ([b], .mk b i m v s n is ordered t r d) ::
      (pathsIn ordered).map fun p => (b :: p.1, p.2)

/-- The nodes of some trees, each with the classes on the way to it. -/
def pathsIn : List Component → List (List String × Component)
  | [] => []
  | x :: rest => paths x ++ pathsIn rest

end

theorem paths_eq (x : Component) :
    x.paths = ([x.base], x) :: (pathsIn x.ordered).map fun p => (x.base :: p.1, p.2) := by
  cases x
  rw [paths]
  rfl

theorem pathsIn_eq_flatMap (xs : List Component) : pathsIn xs = xs.flatMap paths := by
  induction xs with
  | nil => rfl
  | cons x rest ih => rw [pathsIn, ih, List.flatMap_cons]

theorem mem_pathsIn {xs : List Component} {p : List String × Component} :
    p ∈ pathsIn xs ↔ ∃ x ∈ xs, p ∈ x.paths := by
  rw [pathsIn_eq_flatMap, List.mem_flatMap]

theorem mem_paths {x : Component} {p : List String × Component} :
    p ∈ x.paths ↔ p = ([x.base], x) ∨
      ∃ y ∈ x.ordered, ∃ q ∈ y.paths, (x.base :: q.1, q.2) = p := by
  rw [paths_eq, List.mem_cons, List.mem_map]
  constructor
  · rintro (h | ⟨q, hq, he⟩)
    · exact Or.inl h
    · rcases mem_pathsIn.mp hq with ⟨y, hy, hq⟩
      exact Or.inr ⟨y, hy, q, hq, he⟩
  · rintro (h | ⟨y, hy, q, hq, he⟩)
    · exact Or.inl h
    · exact Or.inr ⟨q, mem_pathsIn.mpr ⟨y, hy, hq⟩, he⟩

/-- The ways to the nodes below the root. -/
theorem mem_chains_cons {x : Component} {b : String} {rest : List String} (h : rest ≠ []) :
    b :: rest ∈ x.paths.map Prod.fst ↔
      b = x.base ∧ ∃ y ∈ x.ordered, rest ∈ y.paths.map Prod.fst := by
  rw [paths_eq, List.map_cons, List.map_map, List.mem_cons]
  constructor
  · rintro (he | hmem)
    · exact absurd (List.cons.inj he).2 h
    · rcases List.mem_map.mp hmem with ⟨p, hp, he⟩
      rcases List.cons.inj he with ⟨rfl, rfl⟩
      rcases mem_pathsIn.mp hp with ⟨y, hy, hp⟩
      exact ⟨rfl, y, hy, List.mem_map_of_mem hp⟩
  · rintro ⟨rfl, y, hy, hmem⟩
    rcases List.mem_map.mp hmem with ⟨p, hp, rfl⟩
    exact Or.inr (List.mem_map.mpr ⟨p, mem_pathsIn.mpr ⟨y, hy, hp⟩, rfl⟩)

/-- The way to a node begins with the root. -/
theorem head?_of_mem_paths {x : Component} {p : List String × Component} (h : p ∈ x.paths) :
    p.1.head? = some x.base := by
  rcases mem_paths.mp h with rfl | ⟨_, _, _, _, rfl⟩
  · rfl
  · rfl

theorem base_mem_of_mem_paths {x : Component} {p : List String × Component} (h : p ∈ x.paths) :
    x.base ∈ p.1 :=
  List.mem_of_mem_head? (head?_of_mem_paths h)

theorem isNodeOf_of_mem_paths {x : Component} {p : List String × Component} (h : p ∈ x.paths) :
    p.2.IsNodeOf x := by
  induction x using ordered_induction generalizing p with
  | hstep x ih =>
    rcases mem_paths.mp h with rfl | ⟨y, hy, q, hq, rfl⟩
    · exact .root x
    · exact .ordered hy (ih y hy (p := q) hq)

/-- Every class on the way to a node is that of a node on the way. -/
theorem exists_prefix_of_mem_paths {x : Component} {p : List String × Component} {b : String}
    (hp : p ∈ x.paths) (hb : b ∈ p.1) : ∃ q ∈ x.paths, q.1 <+: p.1 ∧ q.2.base = b := by
  induction x using ordered_induction generalizing p with
  | hstep x ih =>
    have hroot : ([x.base], x) ∈ x.paths := mem_paths.mpr (Or.inl rfl)
    rcases mem_paths.mp hp with rfl | ⟨y, hy, r, hr, rfl⟩
    · exact ⟨_, hroot, List.prefix_refl _, (List.mem_singleton.mp hb).symm⟩
    · rcases List.mem_cons.mp hb with rfl | hb
      · exact ⟨_, hroot, List.prefix_append [x.base] r.1, rfl⟩
      · rcases ih y hy (p := r) hr hb with ⟨q, hq, hstart, he⟩
        exact ⟨(x.base :: q.1, q.2), mem_paths.mpr (Or.inr ⟨y, hy, q, hq, rfl⟩),
          (List.prefix_cons_inj _).mpr hstart, he⟩

theorem pathsIn_nodup {xs : List Component} (hnodup : (xs.map base).Nodup)
    (h : ∀ x ∈ xs, (x.paths.map Prod.fst).Nodup) : ((pathsIn xs).map Prod.fst).Nodup := by
  induction xs with
  | nil => simp [pathsIn]
  | cons x rest ih =>
    rw [List.map_cons, List.nodup_cons] at hnodup
    rw [List.forall_mem_cons] at h
    rw [pathsIn, List.map_append, List.nodup_append']
    refine ⟨h.1, ih hnodup.2 h.2, ?_⟩
    intro chain hx hrest
    rcases List.mem_map.mp hx with ⟨p, hp, rfl⟩
    rcases List.mem_map.mp hrest with ⟨q, hq, he⟩
    rcases mem_pathsIn.mp hq with ⟨y, hy, hq⟩
    -- the heads of the two ways are different
    have hhead := head?_of_mem_paths hp
    rw [← he, head?_of_mem_paths hq, Option.some.injEq] at hhead
    exact hnodup.1 (hhead ▸ List.mem_map_of_mem hy)

theorem filter_base_eq_nil {xs : List Component} {b : String} (h : b ∉ xs.map base) :
    (xs.filter fun z => z.base = b) = [] := by
  rw [List.filter_eq_nil_iff]
  intro z hz he
  exact h (List.mem_map.mpr ⟨z, hz, by simpa using he⟩)

theorem filter_base_eq {xs : List Component} (hnodup : (xs.map base).Nodup)
    {y : Component} (hy : y ∈ xs) : (xs.filter fun z => z.base = y.base) = [y] := by
  induction xs with
  | nil => simp at hy
  | cons x rest ih =>
    rw [List.map_cons, List.nodup_cons] at hnodup
    rcases List.mem_cons.mp hy with rfl | hy
    · simp [filter_base_eq_nil hnodup.1]
    · have hne : x.base ≠ y.base := fun he => hnodup.1 (he ▸ List.mem_map_of_mem hy)
      simp [hne, ih hnodup.2 hy]

end Component

/-- No two nodes of a tree are reached by the same classes. -/
theorem Conventions.TreeCoherent.paths_nodup {c : Conventions} {t : Component}
    (ht : c.TreeCoherent t) : (t.paths.map Prod.fst).Nodup := by
  refine ht.induction ?_
  clear ht t
  intro t ht ih
  have hbelow := Component.pathsIn_nodup ht.root.bases_nodup ih
  rw [Component.paths_eq, List.map_cons, List.map_map, List.nodup_cons]
  constructor
  · -- the ways to nodes below are longer than that to the root
    intro hroot
    rcases List.mem_map.mp hroot with ⟨p, hp, he⟩
    rcases Component.mem_pathsIn.mp hp with ⟨y, _, hp⟩
    have hhead := Component.head?_of_mem_paths hp
    have hnil : p.1 = [] := by simpa using he
    simp [hnil] at hhead
  · have hcomp : ((Prod.fst : List String × Component → List String) ∘
        fun p => (t.base :: p.1, p.2)) = (t.base :: ·) ∘ Prod.fst := rfl
    rw [hcomp, ← List.map_map]
    exact hbelow.map fun _ _ he => (List.cons.inj he).2

/-- Every node of the tree has a way to it. -/
theorem Conventions.TreeCoherent.exists_mem_paths {c : Conventions} {t : Component}
    (ht : c.TreeCoherent t) : ∀ x, x.IsNodeOf t → ∃ p ∈ t.paths, p.2 = x := by
  refine ht.induction ?_
  clear ht t
  intro t ht ih
  rw [Component.forall_isNodeOf_iff]
  refine ⟨⟨_, Component.mem_paths.mpr (Or.inl rfl), rfl⟩, fun y hy x hx => ?_⟩
  have hmem := ht.root.mem_ordered hy
  rcases ih y hmem x hx with ⟨p, hp, rfl⟩
  exact ⟨_, Component.mem_paths.mpr (Or.inr ⟨y, hmem, p, hp, rfl⟩), rfl⟩

/-- The way to a node ends with the node, which is coherent like the tree. -/
theorem Conventions.TreeCoherent.of_mem_paths {c : Conventions} {t : Component}
    (ht : c.TreeCoherent t) :
    ∀ p ∈ t.paths, p.1.getLast? = some p.2.base ∧ c.TreeCoherent p.2 := by
  refine ht.induction ?_
  clear ht t
  intro t ht ih p hp
  rcases Component.mem_paths.mp hp with rfl | ⟨y, hy, q, hq, rfl⟩
  · exact ⟨rfl, ht⟩
  · rcases ih y hy q hq with ⟨hlast, hcoherent⟩
    refine ⟨?_, hcoherent⟩
    rw [List.getLast?_cons, hlast]
    rfl

/-- The ways that go on below a node are those through the tree of the node. -/
theorem Conventions.TreeCoherent.mem_chains_below {c : Conventions} {t : Component}
    (ht : c.TreeCoherent t) : ∀ p ∈ t.paths, ∀ {below : List String}, below ≠ [] →
      (p.1 ++ below ∈ t.paths.map Prod.fst ↔ p.2.base :: below ∈ p.2.paths.map Prod.fst) := by
  refine ht.induction ?_
  clear ht t
  intro t ht ih p hp below hbelow
  rcases Component.mem_paths.mp hp with rfl | ⟨y, hy, q, hq, rfl⟩
  · rfl
  · have hhead := Component.head?_of_mem_paths hq
    have hne : q.1 ++ below ≠ [] := by simp [hbelow]
    rw [← ih y hy q hq hbelow, List.cons_append, Component.mem_chains_cons hne]
    -- among the children only `y` has the class that comes next
    constructor
    · rintro ⟨_, z, hz, hmem⟩
      rcases List.mem_map.mp hmem with ⟨r, hr, he⟩
      have hzhead := Component.head?_of_mem_paths hr
      rw [he, List.head?_append, hhead] at hzhead
      obtain rfl : y = z := List.inj_on_of_nodup_map ht.root.bases_nodup hy hz
        (Option.some.inj hzhead)
      exact hmem
    · exact fun hmem => ⟨rfl, y, hy, hmem⟩

/-! ## Standing for occurrences -/

/-- The node stands for the occurrences, seen from the node. -/
inductive Gathers (fits : List Node → Component → Prop) : Occurrences → Component → Prop where
  | mk {os : Occurrences} {x : Component} (own : here os ≠ []) (fit : fits (here os) x)
      (closed : Closed os) (bases : x.ordered.map base = unique (heads os))
      (children : ∀ y ∈ x.ordered, Gathers fits (inside y.base os) y) : Gathers fits os x

namespace Gathers

variable {fits : List Node → Component → Prop} {os os' : Occurrences} {a b x y : Component}

theorem own (h : Gathers fits os x) : here os ≠ [] := by
  cases h
  assumption

theorem fit (h : Gathers fits os x) : fits (here os) x := by
  cases h
  assumption

theorem closed (h : Gathers fits os x) : Closed os := by
  cases h
  assumption

theorem bases (h : Gathers fits os x) : x.ordered.map base = unique (heads os) := by
  cases h
  assumption

theorem child (h : Gathers fits os x) (hy : y ∈ x.ordered) :
    Gathers fits (inside y.base os) y := by
  cases h with
  | mk _ _ _ _ children => exact children y hy

/-- The children of a node with what they stand for. -/
def traces (os : Occurrences) (x : Component) : List (Occurrences × Component) :=
  x.ordered.map fun y => (inside y.base os, y)

theorem traces_snd (os : Occurrences) (x : Component) :
    (traces os x).map Prod.snd = x.ordered := by
  simp [traces, Function.comp_def]

/-- What the children of a class stand for is all that lies inside the class. -/
theorem traces_filter (h : Gathers fits os x) (b : String) :
    ((traces os x).filter fun p => p.2.base = b).flatMap Prod.fst = inside b os := by
  have hnodup : (x.ordered.map base).Nodup := h.bases ▸ unique_nodup _
  rw [traces, List.filter_map, List.flatMap_map]
  by_cases hb : b ∈ x.ordered.map base
  · rcases List.mem_map.mp hb with ⟨y, hy, rfl⟩
    simp [Function.comp_def, Component.filter_base_eq hnodup hy]
  · -- no child of the class, and nothing inside the class either
    have hempty : inside b os = [] := by
      refine h.closed.inside_eq_nil fun hmem => hb ?_
      rw [h.bases]
      exact mem_unique.mpr hmem
    simp [Function.comp_def, Component.filter_base_eq_nil hb, hempty]

/-- `fits` does not mind merging. -/
def Additive (fits : List Node → Component → Prop) : Prop :=
  ∀ es es' a b, a.base = b.base → fits es a → fits es' b →
    fits (es ++ es') (Component.merge a b)

variable {c : Conventions}

theorem merge (hfits : Additive fits) (ha : Gathers fits os a) (hb : Gathers fits os' b)
    (hca : c.TreeCoherent a) (hcb : c.TreeCoherent b) (hbase : a.base = b.base) :
    Gathers fits (os ++ os') (Component.merge a b) := by
  -- by induction on a bound of the heights: children meet in mergers in any combination
  obtain ⟨n, han, hbn⟩ : ∃ n, a.height ≤ n ∧ b.height ≤ n :=
    ⟨max a.height b.height, Nat.le_max_left .., Nat.le_max_right ..⟩
  induction n using Nat.strongRecOn generalizing os os' a b with
  | ind n ih =>
    have hordered := Conventions.merge_ordered_eq hca hcb
    refine .mk ?_ ?_ (ha.closed.append hb.closed) ?_ ?_
    · simp [ha.own]
    · rw [here_append]
      exact hfits _ _ a b hbase ha.fit hb.fit
    · rw [hordered, Component.dedup_bases, List.map_append, ha.bases, hb.bases,
        unique_append_unique, heads_append]
    · rw [hordered]
      -- what a merged child stands for is followed through the merging of the children
      let R (s : Occurrences) (y : Component) : Prop :=
        Gathers fits s y ∧ c.TreeCoherent y ∧ y.height < n
      have hstep : ∀ s t u v, u.base = v.base → R s u → R t v →
          R (s ++ t) (Component.merge u v) := by
        rintro s t u v he ⟨hu, hcu, hun⟩ ⟨hv, hcv, hvn⟩
        exact ⟨ih (n - 1) (by omega) hu hv hcu hcv he (by omega) (by omega),
          hcu.merge hcv he, Component.height_merge_lt hun hvn⟩
      have hchildren : ∀ p ∈ traces os a ++ traces os' b, R p.1 p.2 := by
        intro p hp
        rcases List.mem_append.mp hp with hp | hp
        · rcases List.mem_map.mp hp with ⟨y, hy, rfl⟩
          have := hca.root.height_lt hy
          exact ⟨ha.child hy, hca.child hy, by dsimp only; omega⟩
        · rcases List.mem_map.mp hp with ⟨y, hy, rfl⟩
          have := hcb.root.height_lt hy
          exact ⟨hb.child hy, hcb.child hy, by dsimp only; omega⟩
      have htraces := Component.dedup_traces hstep hchildren
      rw [List.map_append, traces_snd, traces_snd] at htraces
      intro y hy
      have := (htraces y hy).1
      rwa [List.filter_append, List.flatMap_append, ha.traces_filter, hb.traces_filter,
        ← inside_append] at this

/-! ## The chains of a tree -/

/-- A node of the tree stands for the occurrences inside the classes on the way to it. -/
theorem of_mem_paths (h : Gathers fits os x) {p : List String × Component} (hp : p ∈ x.paths) :
    ∃ rest, p.1 = x.base :: rest ∧ Gathers fits (insideAll rest os) p.2 := by
  induction h generalizing p with
  | mk own fit closed bases children ih =>
    rcases Component.mem_paths.mp hp with rfl | ⟨y, hy, q, hq, rfl⟩
    · exact ⟨[], rfl, .mk own fit closed bases children⟩
    · rcases ih y hy hq with ⟨rest, hrest, hgathers⟩
      exact ⟨y.base :: rest, by rw [hrest], hgathers⟩

theorem insideAll_of_mem_paths (h : Gathers fits os x) {p : List String × Component}
    (hp : p ∈ x.paths) : Gathers fits (insideAll p.1 (prefixed x.base os)) p.2 := by
  rcases h.of_mem_paths hp with ⟨rest, hrest, hgathers⟩
  rw [hrest, insideAll, inside_prefixed, if_pos rfl]
  exact hgathers

/-- Every occurrence has a node. -/
theorem exists_mem_paths (h : Gathers fits os x) {chain : List String} {e : Node}
    (he : (chain, e) ∈ os) : ∃ y, (x.base :: chain, y) ∈ x.paths := by
  induction h generalizing chain with
  | @mk os x own fit closed bases children ih =>
    cases chain with
    | nil => exact ⟨x, Component.mem_paths.mpr (Or.inl rfl)⟩
    | cons b rest =>
      have hb : b ∈ x.ordered.map base := by
        rw [bases]
        exact mem_unique.mpr (closed b rest e he)
      rcases List.mem_map.mp hb with ⟨y, hy, rfl⟩
      rcases ih y hy (mem_inside.mpr he) with ⟨z, hz⟩
      exact ⟨z, Component.mem_paths.mpr (Or.inr ⟨y, hy, _, hz, rfl⟩)⟩

/-- The ways through the tree are the chains of the occurrences. -/
theorem mem_chains (h : Gathers fits os x) {chain : List String} :
    chain ∈ x.paths.map Prod.fst ↔ ∃ e, (chain, e) ∈ prefixed x.base os := by
  constructor
  · intro hc
    rcases List.mem_map.mp hc with ⟨p, hp, rfl⟩
    rcases h.of_mem_paths hp with ⟨rest, hrest, hgathers⟩
    rcases List.exists_mem_of_ne_nil _ hgathers.own with ⟨e, he⟩
    rw [mem_here, mem_insideAll, List.append_nil] at he
    exact ⟨e, List.mem_map.mpr ⟨(rest, e), he, by rw [hrest]⟩⟩
  · rintro ⟨e, he⟩
    rcases List.mem_map.mp he with ⟨⟨rest, e'⟩, hmem, heq⟩
    obtain ⟨rfl, rfl⟩ : x.base :: rest = chain ∧ e' = e := by simpa using heq
    rcases h.exists_mem_paths hmem with ⟨y, hy⟩
    exact List.mem_map.mpr ⟨_, hy, rfl⟩

end Gathers

/-! ## Forests -/

/-- The trees stand for the occurrences, one after the other. -/
def GathersAll (fits : List Node → Component → Prop) (os : Occurrences)
    (xs : List Component) : Prop :=
  ∃ ps : List (Occurrences × Component), ps.map Prod.snd = xs ∧
    ps.flatMap (fun p => prefixed p.2.base p.1) = os ∧ ∀ p ∈ ps, Gathers fits p.1 p.2

namespace GathersAll

variable {fits : List Node → Component → Prop} {os os' : Occurrences} {x : Component}
variable {xs ys : List Component}

theorem nil : GathersAll fits [] [] :=
  ⟨[], rfl, rfl, by simp⟩

theorem singleton (h : Gathers fits os x) : GathersAll fits (prefixed x.base os) [x] :=
  ⟨[(os, x)], rfl, by simp, by simpa using h⟩

theorem append (h : GathersAll fits os xs) (h' : GathersAll fits os' ys) :
    GathersAll fits (os ++ os') (xs ++ ys) := by
  rcases h with ⟨ps, rfl, rfl, hps⟩
  rcases h' with ⟨qs, rfl, rfl, hqs⟩
  refine ⟨ps ++ qs, List.map_append .., List.flatMap_append .., ?_⟩
  intro p hp
  rcases List.mem_append.mp hp with hp | hp
  · exact hps p hp
  · exact hqs p hp

section Parts

variable (ps : List (Occurrences × Component))

theorem here_parts : here (ps.flatMap fun p => prefixed p.2.base p.1) = [] := by
  induction ps with
  | nil => rfl
  | cons p rest ih => rw [List.flatMap_cons, here_append, ih, here_prefixed, List.append_nil]

theorem heads_parts : heads (ps.flatMap fun p => prefixed p.2.base p.1) =
    ps.flatMap fun p => (here p.1).map fun _ => p.2.base := by
  induction ps with
  | nil => rfl
  | cons p rest ih =>
    rw [List.flatMap_cons, heads_append, ih, heads_prefixed, List.flatMap_cons]

theorem inside_parts (b : String) : inside b (ps.flatMap fun p => prefixed p.2.base p.1) =
    (ps.filter fun p => p.2.base = b).flatMap Prod.fst := by
  induction ps with
  | nil => rfl
  | cons p rest ih =>
    rw [List.flatMap_cons, inside_append, ih, inside_prefixed]
    by_cases hb : p.2.base = b <;> simp [hb]

end Parts

theorem closed (h : GathersAll fits os xs) : Closed os := by
  rcases h with ⟨ps, -, rfl, hps⟩
  induction ps with
  | nil => exact fun _ _ _ h => by simp at h
  | cons p rest ih =>
    rw [List.forall_mem_cons] at hps
    rw [List.flatMap_cons]
    exact (closed_prefixed _ hps.1.own).append (ih hps.2)

theorem here_eq_nil (h : GathersAll fits os xs) : here os = [] := by
  rcases h with ⟨ps, _, rfl, _⟩
  exact here_parts ps

/-- The roots of the trees, as often as they occur. -/
theorem unique_heads (h : GathersAll fits os xs) : unique (heads os) = unique (xs.map base) := by
  rcases h with ⟨ps, rfl, rfl, hps⟩
  rw [heads_parts, List.map_map]
  apply unique_flatMap
  intro p hp
  rcases List.exists_cons_of_ne_nil (hps p hp).own with ⟨e, rest, he⟩
  rw [he, List.map_const', List.length_cons]
  exact unique_replicate _ _

variable {c : Conventions}

/-- Merging the trees of a list leaves one tree for every class that occurs. -/
theorem dedup (hfits : Gathers.Additive fits) (h : GathersAll fits os xs)
    (hxs : ∀ x ∈ xs, c.TreeCoherent x) :
    ∀ y ∈ Component.dedup xs, Gathers fits (inside y.base os) y := by
  rcases h with ⟨ps, rfl, rfl, hps⟩
  -- mergers need coherent nodes, so coherence is followed along
  let R (s : Occurrences) (y : Component) : Prop := Gathers fits s y ∧ c.TreeCoherent y
  have hstep : ∀ s t u v, u.base = v.base → R s u → R t v →
      R (s ++ t) (Component.merge u v) := by
    rintro s t u v he ⟨hu, hcu⟩ ⟨hv, hcv⟩
    exact ⟨hu.merge hfits hv hcu hcv he, hcu.merge hcv he⟩
  have htraces := Component.dedup_traces hstep
    fun p hp => ⟨hps p hp, hxs _ (List.mem_map_of_mem hp)⟩
  intro y hy
  rw [inside_parts]
  exact (htraces y hy).1

/-- The ways through the trees are the chains of the occurrences. -/
theorem mem_chains (h : GathersAll fits os xs) {chain : List String} :
    (∃ x ∈ xs, chain ∈ x.paths.map Prod.fst) ↔ ∃ e, (chain, e) ∈ os := by
  rcases h with ⟨ps, rfl, rfl, hps⟩
  simp only [List.mem_flatMap]
  constructor
  · rintro ⟨x, hx, hchain⟩
    rcases List.mem_map.mp hx with ⟨p, hp, rfl⟩
    rcases (hps p hp).mem_chains.mp hchain with ⟨e, he⟩
    exact ⟨e, p, hp, he⟩
  · rintro ⟨e, p, hp, he⟩
    exact ⟨p.2, List.mem_map_of_mem hp, (hps p hp).mem_chains.mpr ⟨e, he⟩⟩

theorem exists_of_forall (h : ∀ x ∈ xs, ∃ os, Gathers fits os x) :
    ∃ os, GathersAll fits os xs := by
  induction xs with
  | nil => exact ⟨[], .nil⟩
  | cons x rest ih =>
    rw [List.forall_mem_cons] at h
    rcases h.1 with ⟨os, hx⟩
    rcases ih h.2 with ⟨os', hrest⟩
    exact ⟨_, (singleton hx).append hrest⟩

/-- Merging the trees of a list neither loses nor adds a way through them. -/
theorem mem_chains_dedup (hfits : Gathers.Additive fits)
    (h : ∀ x ∈ xs, ∃ os, Gathers fits os x) (hxs : ∀ x ∈ xs, c.TreeCoherent x)
    {chain : List String} :
    (∃ y ∈ Component.dedup xs, chain ∈ y.paths.map Prod.fst) ↔
      ∃ x ∈ xs, chain ∈ x.paths.map Prod.fst := by
  rcases exists_of_forall h with ⟨os, hos⟩
  rw [hos.mem_chains]
  constructor
  · rintro ⟨y, hy, hchain⟩
    rcases ((hos.dedup hfits hxs y hy).mem_chains).mp hchain with ⟨e, he⟩
    rcases List.mem_map.mp he with ⟨⟨rest, e'⟩, hmem, heq⟩
    rcases Prod.mk.inj heq with ⟨rfl, rfl⟩
    exact ⟨_, mem_inside.mp hmem⟩
  · rintro ⟨e, he⟩
    cases chain with
    | nil =>
      have hnil := hos.here_eq_nil ▸ mem_here.mpr he
      simp at hnil
    | cons b rest =>
      have hb : b ∈ (Component.dedup xs).map base := by
        rw [Component.dedup_bases, ← hos.unique_heads]
        exact mem_unique.mpr (hos.closed b rest e he)
      rcases List.mem_map.mp hb with ⟨y, hy, rfl⟩
      refine ⟨y, hy, (hos.dedup hfits hxs y hy).mem_chains.mpr ⟨e, ?_⟩⟩
      exact List.mem_map.mpr ⟨(rest, e), mem_inside.mpr he, rfl⟩

end GathersAll

end BlockMarkup
