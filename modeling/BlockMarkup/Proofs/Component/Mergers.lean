import BlockMarkup.Proofs.Component.Invariant
import BlockMarkup.Stylesheet.Generate

/-! # The mergers that are made

Merging a list merges nodes of one class, and merging two nodes merges their lists of children, so one
list may lead to many mergers at all levels below it (`Component.Merges`). A warning is given for each
of them in which a Block and an Element meet (`Component.mem_dedupConflicts`). While trees are built
from markup and while the trees of roots are put together, no such merger is made
(`StylesheetWriter.kinds_agree_in_mergers`): whatever has been merged so far, a property that holds of
all nodes and that mergers keep holds of both nodes of the next merger (`Component.Merges.induction`),
and coherence is such a property.

The lists that are merged while a tree is built are listed by `Conventions.mergedLists`. These are all:
the children of the tree and of every node in the lists are merged from one of them
(`Conventions.childrenFrom_of_build`, `Conventions.childrenFrom_of_mem_mergedLists`).
-/

namespace BlockMarkup

namespace Component

/-- Merging the list merges its node `b` into `a`, which is what came before it of its class. -/
def Meets (xs : List Component) (a b : Component) : Prop :=
  ∃ ys zs, xs = ys ++ b :: zs ∧ a ∈ dedup ys ∧ a.base = b.base

/-- Merging the list makes the merger of `a` and `b`, itself or in another merger that it makes. -/
inductive Merges : List Component → Component → Component → Prop where
  | meets {xs : List Component} {a b : Component} : Meets xs a b → Merges xs a b
  | nested {xs : List Component} {a b p q : Component} :
      Meets xs a b → Merges (a.nested ++ b.nested) p q → Merges xs p q
  | independents {xs : List Component} {a b p q : Component} :
      Meets xs a b → Merges (a.independents ++ b.independents) p q → Merges xs p q

variable {xs ys : List Component} {a b p q : Component} {d : String}

theorem not_meets_nil : ¬ Meets [] a b := by
  rintro ⟨ys, zs, h, _⟩
  simp at h

/-- What holds of all nodes of a list and is kept by mergers holds of the nodes that meet. -/
theorem Meets.induction {P : Component → Prop}
    (hm : ∀ a b, a.base = b.base → P a → P b → P (merge a b)) (h : Meets xs a b)
    (hxs : ∀ x ∈ xs, P x) : P a ∧ P b := by
  rcases h with ⟨ys, zs, rfl, ha, _⟩
  refine ⟨dedup_induction hm (fun y hy => hxs y (List.mem_append_left _ hy)) a ha, ?_⟩
  exact hxs b (List.mem_append_right _ List.mem_cons_self)

theorem Meets.base_eq (h : Meets xs a b) : a.base = b.base := by
  rcases h with ⟨_, _, _, _, hbase⟩
  exact hbase

theorem Merges.base_eq (h : Merges xs p q) : p.base = q.base := by
  induction h with
  | meets h => exact h.base_eq
  | nested _ _ ih => exact ih
  | independents _ _ ih => exact ih

/-- What holds of all nodes of a list, is passed on to children and is kept by mergers holds of the two
nodes of every merger, at whatever level. -/
theorem Merges.induction {P : Component → Prop}
    (hm : ∀ a b, a.base = b.base → P a → P b → P (merge a b))
    (hnested : ∀ t, P t → ∀ y ∈ t.nested, P y)
    (hindependents : ∀ t, P t → ∀ y ∈ t.independents, P y)
    (h : Merges xs p q) (hxs : ∀ x ∈ xs, P x) : P p ∧ P q := by
  induction h with
  | meets h => exact h.induction hm hxs
  | nested h _ ih =>
    obtain ⟨ha, hb⟩ := h.induction hm hxs
    exact ih (List.forall_mem_append.mpr ⟨hnested _ ha, hnested _ hb⟩)
  | independents h _ ih =>
    obtain ⟨ha, hb⟩ := h.induction hm hxs
    exact ih (List.forall_mem_append.mpr ⟨hindependents _ ha, hindependents _ hb⟩)

/-! ## Warnings -/

/-- The two nodes are a Block and an Element of the class. -/
def Differ (a b : Component) (d : String) : Prop := a.base = d ∧ a.independent ≠ b.independent

/-- Merging the list makes a merger of a Block and an Element of the class. -/
def Disagrees (xs : List Component) (d : String) : Prop := ∃ a b, Merges xs a b ∧ Differ a b d

theorem disagrees_iff : Disagrees xs d ↔ ∃ a b, Meets xs a b ∧
    (Differ a b d ∨ Disagrees (a.nested ++ b.nested) d ∨
      Disagrees (a.independents ++ b.independents) d) := by
  constructor
  · rintro ⟨p, q, h, hd⟩
    cases h with
    | meets h => exact ⟨p, q, h, Or.inl hd⟩
    | @nested _ a b _ _ h hbelow => exact ⟨a, b, h, Or.inr (Or.inl ⟨p, q, hbelow, hd⟩)⟩
    | @independents _ a b _ _ h hbelow => exact ⟨a, b, h, Or.inr (Or.inr ⟨p, q, hbelow, hd⟩)⟩
  · rintro ⟨a, b, h, hd | ⟨p, q, hbelow, hd⟩ | ⟨p, q, hbelow, hd⟩⟩
    · exact ⟨a, b, .meets h, hd⟩
    · exact ⟨p, q, .nested h hbelow, hd⟩
    · exact ⟨p, q, .independents h hbelow, hd⟩

theorem not_disagrees_nil : ¬ Disagrees [] d := by
  rw [disagrees_iff]
  rintro ⟨a, b, h, _⟩
  exact not_meets_nil h

theorem find?_base_eq_some (hnodup : (xs.map base).Nodup) {c : Component} :
    xs.find? (·.base = d) = some c ↔ c ∈ xs ∧ c.base = d := by
  constructor
  · intro h
    exact ⟨List.mem_of_find?_eq_some h, by simpa using List.find?_some h⟩
  · rintro ⟨hc, rfl⟩
    rcases hfind : xs.find? (·.base = c.base) with _ | y
    · simpa using List.find?_eq_none.mp hfind c hc
    · have hbase : y.base = c.base := by simpa using List.find?_some hfind
      rw [hfind, List.inj_on_of_nodup_map hnodup (List.mem_of_find?_eq_some hfind) hc hbase]

/-- The warnings about a list are those about the mergers of its nodes, `ys` being merged already. -/
theorem mem_dedupConflictsWith {f : Component → Component → List String} :
    d ∈ dedupConflictsWith f (dedup ys) xs ↔
      ∃ us b zs, xs = us ++ b :: zs ∧ ∃ a ∈ dedup (ys ++ us), a.base = b.base ∧ d ∈ f a b := by
  induction xs generalizing ys with
  | nil => simp [dedupConflictsWith]
  | cons x rest ih =>
    -- the warnings about the first node, and those about the rest when it has been merged
    rw [dedupConflictsWith, List.mem_append, ← dedup_concat, ih]
    refine (or_congr (c := ∃ a ∈ dedup ys, a.base = x.base ∧ d ∈ f a x) ⟨fun h => ?_, ?_⟩
      Iff.rfl).trans ⟨?_, ?_⟩
    · split at h
      · rename_i c hc
        obtain ⟨hmem, hbase⟩ := (find?_base_eq_some (dedup_bases_nodup ys)).mp hc
        exact ⟨c, hmem, hbase, h⟩
      · cases h
    · rintro ⟨a, ha, hbase, hd⟩
      rw [(find?_base_eq_some (dedup_bases_nodup ys)).mpr ⟨ha, hbase⟩]
      exact hd
    · rintro (⟨a, ha, hbase, hd⟩ | ⟨us, b, zs, rfl, a, ha, hbase, hd⟩)
      · exact ⟨[], x, rest, rfl, a, by rwa [List.append_nil], hbase, hd⟩
      · exact ⟨x :: us, b, zs, rfl, a, by rwa [List.append_assoc] at ha, hbase, hd⟩
    · rintro ⟨us, b, zs, hsplit, a, ha, hbase, hd⟩
      cases us with
      | nil =>
        cases hsplit
        exact Or.inl ⟨a, by rwa [List.append_nil] at ha, hbase, hd⟩
      | cons u us =>
        cases hsplit
        exact Or.inr ⟨us, b, zs, rfl, a, by rwa [List.append_assoc], hbase, hd⟩

theorem mem_dedupConflictsWith_nil {f : Component → Component → List String} :
    d ∈ dedupConflictsWith f [] xs ↔ ∃ a b, Meets xs a b ∧ d ∈ f a b := by
  have hnil : dedup [] = [] := rfl
  rw [← hnil, mem_dedupConflictsWith]
  constructor
  · rintro ⟨us, b, zs, rfl, a, ha, hbase, hd⟩
    exact ⟨a, b, ⟨us, zs, rfl, ha, hbase⟩, hd⟩
  · rintro ⟨a, b, ⟨us, zs, rfl, ha, hbase⟩, hd⟩
    exact ⟨us, b, zs, rfl, a, ha, hbase, hd⟩

/-- With enough levels, the warnings about a merger are those about all mergers that it makes. -/
theorem mem_conflictsTo {n : Nat} (ha : a.height ≤ n) (hb : b.height ≤ n) :
    d ∈ conflictsTo n a b ↔ Differ a b d ∨ Disagrees (a.nested ++ b.nested) d ∨
      Disagrees (a.independents ++ b.independents) d := by
  have hown : ∀ a b : Component,
      (d ∈ if a.independent != b.independent then [a.base] else []) ↔ Differ a b d := by
    intro a b
    rw [Differ]
    split
    · rename_i hne
      rw [List.mem_singleton, eq_comm]
      exact (and_iff_left (by simpa using hne)).symm
    · rename_i heq
      exact iff_of_false List.not_mem_nil fun h => h.2 (by simpa using heq)
  induction n generalizing a b with
  | zero =>
    obtain ⟨han, hai⟩ := children_nil_of_height_zero ha
    obtain ⟨hbn, hbi⟩ := children_nil_of_height_zero hb
    rw [conflictsTo, List.append_nil, hown, han, hbn, hai, hbi, List.append_nil]
    simp only [not_disagrees_nil, or_false]
  | succ n ih =>
    -- nodes that meet below are lower, merged or not
    have hlist : ∀ zs : List Component, (∀ z ∈ zs, z.height ≤ n) →
        (d ∈ dedupConflictsWith (conflictsTo n) [] zs ↔ Disagrees zs d) := by
      intro zs hzs
      rw [mem_dedupConflictsWith_nil, disagrees_iff]
      refine exists_congr fun x => exists_congr fun y => and_congr_right fun h => ?_
      obtain ⟨hx, hy⟩ := h.induction (fun _ _ _ => height_merge_le) hzs
      exact ih hx hy
    rw [conflictsTo, List.mem_append, List.mem_append, hown,
      hlist _ fun z hz => height_le_of_mem_children ha hb (Or.inl hz),
      hlist _ fun z hz => height_le_of_mem_children ha hb (Or.inr hz)]

/-- A warning about a class is given exactly if a Block and an Element of it are merged, at whatever
level. -/
theorem mem_dedupConflicts : d ∈ dedupConflicts xs ↔ Disagrees xs d := by
  rw [dedupConflicts, mem_dedupConflictsWith_nil, disagrees_iff]
  refine exists_congr fun a => exists_congr fun b => and_congr_right fun _ => ?_
  exact mem_conflictsTo (Nat.le_max_left ..) (Nat.le_max_right ..)

theorem dedupConflicts_eq_nil (h : ∀ a b, Merges xs a b → a.independent = b.independent) :
    dedupConflicts xs = [] := by
  rw [List.eq_nil_iff_forall_not_mem]
  intro d hd
  obtain ⟨a, b, hmerges, _, hne⟩ := mem_dedupConflicts.mp hd
  exact hne (h a b hmerges)

end Component

namespace Conventions

open Component (Merges)
open Markup (Node)

variable {c : Conventions}

/-- Where all trees are coherent, no Block is merged with an Element: both have the kind of their
class. -/
theorem independent_eq_of_merges {xs : List Component} (hxs : ∀ x ∈ xs, c.TreeCoherent x)
    {a b : Component} (h : Merges xs a b) : a.independent = b.independent := by
  obtain ⟨ha, hb⟩ := h.induction (P := c.TreeCoherent) (fun _ _ he ha hb => ha.merge hb he)
    (fun _ ht _ hy x hx => ht x (.nested hy hx))
    (fun _ ht _ hy x hx => ht x (.independents hy hx)) hxs
  rw [ha.root.kind, hb.root.kind, h.base_eq]

/-! ## Building -/

mutual

/-- The lists that are merged while the tree of an element is built at a depth. -/
def mergedLists (c : Conventions) (depth : Nat) : Node → List (List Component)
  | .leaf .. => []
  | .element _ attributes children =>
    if depth ≥ maxDepth then []
    else
      match Text.words ((attributes.lookup "class").getD "") with
      | [] => []
      | _ :: _ =>
        c.mergedListsAmong (depth + 1) children ++ [c.found (depth + 1) false children]

/-- The lists that are merged below an element without classes. -/
def mergedListsBelow (c : Conventions) (depth : Nat) : Node → List (List Component)
  | .leaf .. => []
  | .element _ _ children =>
    if depth ≥ maxDepth then [] else c.mergedListsAmong (depth + 1) children

/-- The lists that are merged while the children of an element are gone through. -/
def mergedListsAmong (c : Conventions) (depth : Nat) : List Node → List (List Component)
  | [] => []
  | n :: rest =>
    (match c.build depth n with
      | some _ => c.mergedLists depth n
      | none => c.mergedListsBelow depth n) ++ c.mergedListsAmong depth rest

end

/-- Some of the lists is merged into the children of the node. -/
def ChildrenFrom (lists : List (List Component)) (t : Component) : Prop :=
  ∃ xs ∈ lists, t.ordered = Component.dedup xs

theorem ChildrenFrom.markDeep {lists : List (List Component)} {t : Component}
    (h : ChildrenFrom lists t) : ChildrenFrom lists t.markDeep := by
  cases t
  exact h

theorem ChildrenFrom.mono {lists lists' : List (List Component)} {t : Component}
    (h : ChildrenFrom lists t) (hsub : lists ⊆ lists') : ChildrenFrom lists' t := by
  rcases h with ⟨xs, hxs, heq⟩
  exact ⟨xs, hsub hxs, heq⟩

theorem childrenFrom_of_build {depth : Nat} {n : Node} {t : Component}
    (h : c.build depth n = some t) : ChildrenFrom (c.mergedLists depth n) t := by
  cases n with
  | leaf => simp [build] at h
  | element name attributes children =>
    obtain ⟨hdepth, base, modifiers, hwords, rfl⟩ := build_element_eq_some_iff.mp h
    rw [mergedLists, if_neg (Nat.not_le_of_lt hdepth), hwords]
    exact ⟨_, List.mem_append_right _ (List.mem_singleton_self _), rfl⟩

mutual

theorem childrenFrom_of_below (depth : Nat) :
    ∀ n : Node, ∀ t ∈ c.below depth n, ChildrenFrom (c.mergedListsBelow depth n) t
  | .leaf .. => by
    intro t ht
    simp [below] at ht
  | .element name attributes children => by
    intro t ht
    rw [below] at ht
    rw [mergedListsBelow]
    split at ht
    · cases ht
    · rename_i hdepth
      rw [if_neg hdepth]
      exact childrenFrom_of_found (depth + 1) true children t ht

/-- The children of what comes up are merged from lists that are merged on the way. -/
theorem childrenFrom_of_found (depth : Nat) (deep : Bool) :
    ∀ ns : List Node, ∀ t ∈ c.found depth deep ns, ChildrenFrom (c.mergedListsAmong depth ns) t
  | [] => by
    intro t ht
    simp [found] at ht
  | n :: rest => by
    intro t ht
    rw [found] at ht
    rw [mergedListsAmong]
    rcases List.mem_append.mp ht with ht | ht
    · refine ChildrenFrom.mono ?_ (List.subset_append_left _ _)
      cases hbuild : c.build depth n with
      | none =>
        rw [hbuild] at ht
        exact childrenFrom_of_below depth n t ht
      | some u =>
        rw [hbuild] at ht
        rw [List.mem_singleton.mp ht]
        have hu := childrenFrom_of_build hbuild
        dsimp only
        split
        · exact hu.markDeep
        · exact hu
    · exact (childrenFrom_of_found depth deep rest t ht).mono (List.subset_append_right _ _)

end

mutual

/-- A list that is merged is what is found below an element, and so are the lists that are merged on
the way there. -/
theorem exists_found_of_mem_mergedLists (depth : Nat) :
    ∀ n : Node, ∀ xs ∈ c.mergedLists depth n, ∃ d ns, xs = c.found d false ns ∧
      c.mergedListsAmong d ns ⊆ c.mergedLists depth n
  | .leaf .. => by
    intro xs hxs
    simp [mergedLists] at hxs
  | .element name attributes children => by
    intro xs hxs
    rw [mergedLists] at hxs ⊢
    split at hxs
    · cases hxs
    · rename_i hdepth
      rw [if_neg hdepth]
      split at hxs
      · cases hxs
      · rcases List.mem_append.mp hxs with hxs | hxs
        · obtain ⟨d, ns, heq, hsub⟩ :=
            exists_found_of_mem_mergedListsAmong (depth + 1) children xs hxs
          exact ⟨d, ns, heq, List.subset_append_of_subset_left _ hsub⟩
        · exact ⟨depth + 1, children, List.mem_singleton.mp hxs, List.subset_append_left _ _⟩

theorem exists_found_of_mem_mergedListsBelow (depth : Nat) :
    ∀ n : Node, ∀ xs ∈ c.mergedListsBelow depth n, ∃ d ns, xs = c.found d false ns ∧
      c.mergedListsAmong d ns ⊆ c.mergedListsBelow depth n
  | .leaf .. => by
    intro xs hxs
    simp [mergedListsBelow] at hxs
  | .element name attributes children => by
    intro xs hxs
    rw [mergedListsBelow] at hxs ⊢
    split at hxs
    · cases hxs
    · rename_i hdepth
      rw [if_neg hdepth]
      exact exists_found_of_mem_mergedListsAmong (depth + 1) children xs hxs

theorem exists_found_of_mem_mergedListsAmong (depth : Nat) :
    ∀ ns : List Node, ∀ xs ∈ c.mergedListsAmong depth ns, ∃ d ms, xs = c.found d false ms ∧
      c.mergedListsAmong d ms ⊆ c.mergedListsAmong depth ns
  | [] => by
    intro xs hxs
    simp [mergedListsAmong] at hxs
  | n :: rest => by
    intro xs hxs
    rw [mergedListsAmong] at hxs ⊢
    rcases List.mem_append.mp hxs with hxs | hxs
    · cases hbuild : c.build depth n with
      | none =>
        rw [hbuild] at hxs
        obtain ⟨d, ms, heq, hsub⟩ := exists_found_of_mem_mergedListsBelow depth n xs hxs
        exact ⟨d, ms, heq, List.subset_append_of_subset_left _ hsub⟩
      | some t =>
        rw [hbuild] at hxs
        obtain ⟨d, ms, heq, hsub⟩ := exists_found_of_mem_mergedLists depth n xs hxs
        exact ⟨d, ms, heq, List.subset_append_of_subset_left _ hsub⟩
    · obtain ⟨d, ms, heq, hsub⟩ := exists_found_of_mem_mergedListsAmong depth rest xs hxs
      exact ⟨d, ms, heq, List.subset_append_of_subset_right _ hsub⟩

end

theorem coherent_of_mem_mergedLists {depth : Nat} {n : Node} :
    ∀ xs ∈ c.mergedLists depth n, ∀ x ∈ xs, c.TreeCoherent x := by
  intro xs hxs
  obtain ⟨d, ns, rfl, -⟩ := exists_found_of_mem_mergedLists depth n xs hxs
  exact treeCoherent_of_found d false ns

/-- No list is left out: the children of every node in the lists are merged from one of the lists. -/
theorem childrenFrom_of_mem_mergedLists {depth : Nat} {n : Node} :
    ∀ xs ∈ c.mergedLists depth n, ∀ x ∈ xs, ChildrenFrom (c.mergedLists depth n) x := by
  intro xs hxs x hx
  obtain ⟨d, ns, rfl, hsub⟩ := exists_found_of_mem_mergedLists depth n xs hxs
  exact (childrenFrom_of_found d false ns x hx).mono hsub

end Conventions

/-! ## Roots -/

namespace StylesheetWriter

open Component (Merges dedupConflicts)
open Markup (Node RootMode)

/-- The lists that are merged while the trees of the roots are built and put together. -/
def mergedLists (w : StylesheetWriter) (mode : RootMode) (roots : List Node) :
    List (List Component) :=
  roots.flatMap (w.conventions.mergedLists 0) ++
    match mode with
    | .root => []
    | .selection => [(w.blockTrees roots).map (·.withRoot false)]

theorem coherent_of_mem_mergedLists {w : StylesheetWriter} {mode : RootMode} {roots : List Node} :
    ∀ xs ∈ w.mergedLists mode roots, ∀ x ∈ xs, w.conventions.TreeCoherent x := by
  intro xs hxs x hx
  rcases List.mem_append.mp hxs with hxs | hxs
  · rcases List.mem_flatMap.mp hxs with ⟨n, _, hxs⟩
    exact Conventions.coherent_of_mem_mergedLists xs hxs x hx
  · cases mode with
    | root => cases hxs
    | selection =>
      rw [List.mem_singleton.mp hxs] at hx
      rcases List.mem_map.mp hx with ⟨t, ht, rfl⟩
      obtain ⟨n, _, hn⟩ := List.mem_filterMap.mp (List.mem_filter.mp ht).1
      exact (Conventions.treeCoherent_of_build 0 n t hn).withRoot false

/-- From markup, no Block is ever merged with an Element: not while a tree is built at whatever depth,
and not while the trees of roots are put together in either mode. So no warning is given. -/
theorem kinds_agree_in_mergers :
    (∀ (c : Conventions) (depth : Nat) (n : Node), ∀ xs ∈ c.mergedLists depth n,
      (∀ a b, Merges xs a b → a.independent = b.independent) ∧ dedupConflicts xs = []) ∧
    ∀ (w : StylesheetWriter) (mode : RootMode) (roots : List Node),
      ∀ xs ∈ w.mergedLists mode roots,
        (∀ a b, Merges xs a b → a.independent = b.independent) ∧ dedupConflicts xs = [] := by
  have hquiet : ∀ (c : Conventions) (xs : List Component), (∀ x ∈ xs, c.TreeCoherent x) →
      (∀ a b, Merges xs a b → a.independent = b.independent) ∧ dedupConflicts xs = [] := by
    intro c xs hxs
    have hagree : ∀ a b, Merges xs a b → a.independent = b.independent :=
      fun a b => Conventions.independent_eq_of_merges hxs
    exact ⟨hagree, Component.dedupConflicts_eq_nil hagree⟩
  constructor
  · intro c depth n xs hxs
    exact hquiet c xs (Conventions.coherent_of_mem_mergedLists xs hxs)
  · intro w mode roots xs hxs
    exact hquiet w.conventions xs (coherent_of_mem_mergedLists xs hxs)

/-- Two banners, each with a card of the same class below an element without classes, and in the cards
a note: the banners are merged, then the cards, then the notes. -/
theorem kinds_agree_in_banners :
    let w : StylesheetWriter := ⟨{}, {}⟩
    let note : Node := .element "p" [("class", "note")] []
    let card : Node := .element "div" [] [.element "div" [("class", "media-card")] [note]]
    let banner : Node := .element "div" [("class", "hero-banner")] [card]
    ∃ xs ∈ w.mergedLists .selection [banner, banner], ∃ a b,
      Merges xs a b ∧ a.base = "note" ∧ a.independent = false ∧ a.independent = b.independent ∧
        dedupConflicts xs = [] := by
  intro w note card banner
  let n : Component := .mk "note" false [] [] [] [] [] [] "p" false false
  let m : Component := .mk "media-card" true [] [] [] [n] [] [n] "div" false true
  let t : Component := .mk "hero-banner" true [] [] [] [] [m] [m] "div" false false
  have hlist : [t, t] ∈ w.mergedLists .selection [banner, banner] := by decide +kernel
  have hmerges : Merges [t, t] n n :=
    .independents ⟨[t], [], rfl, by decide +kernel, rfl⟩
      (.nested ⟨[m], [], rfl, by decide +kernel, rfl⟩ (.meets ⟨[n], [], rfl, by decide +kernel, rfl⟩))
  obtain ⟨hagree, hquiet⟩ := kinds_agree_in_mergers.2 w .selection [banner, banner] _ hlist
  exact ⟨[t, t], hlist, n, n, hmerges, rfl, rfl, hagree n n hmerges, hquiet⟩

end StylesheetWriter

end BlockMarkup
