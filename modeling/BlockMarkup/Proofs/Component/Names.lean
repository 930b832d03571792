import BlockMarkup.Proofs.Component.Gathers
import BlockMarkup.Proofs.Text.Words

/-! # Names of nodes

The class that names a node is the first word of an attribute, and neither merging nor marking gives
a node another name. So the nodes of all trees that are built are named by words.
-/

namespace BlockMarkup

namespace Component

/-- All nodes of the tree are named by words. -/
def Named (t : Component) : Prop := ∀ x : Component, x.IsNodeOf t → Text.IsWord x.base

variable {t : Component}

theorem named_dedup {ts : List Component} (h : ∀ t ∈ ts, t.Named) : ∀ t ∈ dedup ts, t.Named := by
  refine forall_isNodeOf_dedup ?_ h
  intro a b _ ha _
  rw [merge_base]
  exact ha a (.root a)

theorem Named.withRoot (isRoot : Bool) (h : t.Named) : (t.withRoot isRoot).Named := by
  refine forall_isNodeOf_withRoot ?_ h
  have hroot := h t (.root t)
  cases t
  exact hroot

theorem Named.markDeep (h : t.Named) : t.markDeep.Named := by
  refine forall_isNodeOf_markDeep ?_ h
  have hroot := h t (.root t)
  cases t
  exact hroot

/-- The classes on the way to a node are words. -/
theorem Named.isWord_of_mem_paths (ht : t.Named) {p : List String × Component} (hp : p ∈ t.paths)
    {b : String} (hb : b ∈ p.1) : Text.IsWord b := by
  rcases exists_prefix_of_mem_paths hp hb with ⟨q, hq, _, rfl⟩
  exact ht q.2 (isNodeOf_of_mem_paths hq)

end Component

namespace Conventions

variable {c : Conventions} {t : Component}

theorem keptByBuilding_named : c.KeptByBuilding Component.Named where
  component name attributes b modifiers found hwords hfound := by
    have hmerged := Component.named_dedup hfound
    refine Component.forall_isNodeOf_iff.mpr ⟨?_, fun y hy => hmerged y ?_⟩
    · exact Text.isWord_of_mem_words (hwords ▸ List.mem_cons_self)
    · -- all lists of children are parts of what was found
      rcases List.mem_append.mp hy with hy | hy
      · rcases List.mem_append.mp hy with hy | hy
        · exact List.mem_of_mem_filter hy
        · exact List.mem_of_mem_filter hy
      · exact hy
  markDeep _ h := h.markDeep

theorem named_of_built (ht : c.Built t) : t.Named := by
  induction ht with
  | build h => exact keptByBuilding_named.of_build _ _ _ h
  | dedup _ ht ih => exact Component.named_dedup ih _ ht
  | withRoot isRoot _ ih => exact ih.withRoot isRoot
  | markDeep _ ih => exact ih.markDeep

end Conventions

end BlockMarkup
