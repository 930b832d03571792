import BlockMarkup.Lint.Run
import BlockMarkup.Proofs.Markup.AttributeName
import BlockMarkup.Proofs.Result

/-! # Names of attributes in documents

The tree in the making takes attributes from tokens only, so what the pattern says of their names
holds of all elements of a document (`named_of_read`), and of those that the linter begins with
(`named_of_roots`).
-/

namespace BlockMarkup

namespace Markup

namespace Node

/-- All elements of the tree have attributes with names that the pattern allows. -/
def Named (n : Node) : Prop := ∀ r ∈ n.routes, NamedAttributes r.here.attributes

theorem named_leaf (kind : LeafKind) (s : List Char) : (Node.leaf kind s).Named := by
  simp [Named, Node.routes]

theorem named_element {name : String} {as : Attributes} {cs : List Node} :
    (Node.element name as cs).Named ↔ NamedAttributes as ∧ ∀ n ∈ cs, n.Named := by
  simp only [Named, Node.routes, List.forall_mem_cons, List.mem_map, mem_routesIn]
  constructor
  · rintro ⟨has, h⟩
    exact ⟨has, fun n hn r hr => h (r.under _) ⟨r, ⟨n, hn, hr⟩, rfl⟩⟩
  · rintro ⟨has, h⟩
    refine ⟨has, ?_⟩
    rintro _ ⟨r, ⟨n, hn, hr⟩, rfl⟩
    exact h n hn r hr

/-! ## Trees in the making -/

namespace Building

/-- All elements of the tree in the making, open or closed, have such attributes. -/
structure Named (b : Building) : Prop where
  opened : ∀ e ∈ b.opened, NamedAttributes e.attributes ∧ ∀ n ∈ e.content, n.Named
  done : ∀ n ∈ b.done, n.Named

variable {b : Building}

theorem Named.add (h : b.Named) {n : Node} (hn : n.Named) : (b.add n).Named := by
  rw [Building.add]
  split
  · exact ⟨h.opened, List.forall_mem_cons.mpr ⟨hn, h.done⟩⟩
  · rename_i e rest hopened
    have hopen := h.opened
    rw [hopened, List.forall_mem_cons] at hopen
    refine ⟨List.forall_mem_cons.mpr ⟨⟨hopen.1.1, ?_⟩, hopen.2⟩, h.done⟩
    exact List.forall_mem_cons.mpr ⟨hn, hopen.1.2⟩

theorem Named.endText (h : b.Named) : b.endText.Named := by
  rw [Building.endText]
  split
  · exact h
  · have hadd := h.add (named_leaf .text (b.condense b.text.reverse.flatten))
    exact ⟨hadd.opened, hadd.done⟩

theorem Named.addLeaf (h : b.Named) (kind : LeafKind) (s : List Char) : (b.addLeaf kind s).Named :=
  h.endText.add (named_leaf _ _)

theorem Named.openElement (h : b.Named) (name : String) {as : Attributes}
    (has : NamedAttributes as) : (b.openElement name as).Named :=
  ⟨List.forall_mem_cons.mpr ⟨⟨has, by simp⟩, h.endText.opened⟩, h.endText.done⟩

theorem Named.closeInnermost (h : b.Named) : b.closeInnermost.Named := by
  rw [Building.closeInnermost]
  split
  · exact h
  · rename_i e rest hopened
    have hopen := h.opened
    rw [hopened, List.forall_mem_cons] at hopen
    have hrest : ({ b with opened := rest } : Building).Named := ⟨hopen.2, h.done⟩
    refine hrest.add (named_element.mpr ⟨hopen.1.1, fun n hn => ?_⟩)
    exact hopen.1.2 n (List.mem_reverse.mp hn)

theorem Named.closeMany (h : b.Named) (n : Nat) : (closeMany n b).Named := by
  induction n generalizing b with
  | zero => exact h
  | succ n ih => exact ih h.closeInnermost

theorem Named.endElement (h : b.Named) (name : String) : (b.endElement name).Named := by
  rw [Building.endElement]
  split
  · exact ⟨h.opened, h.done⟩
  · rw [closeNamed]
    split
    · exact h.endText
    · exact h.endText.closeMany _

theorem Named.step (h : b.Named) {t : Token} (ht : NamedAttributes t.attributes) :
    (b.step t).Named := by
  cases t with
  | startTag name as =>
    have hopen := h.openElement name ht
    rw [Building.step]
    dsimp only
    split
    · exact ⟨hopen.closeInnermost.opened, hopen.closeInnermost.done⟩
    · exact hopen
  | emptyTag name as => exact (h.openElement name ht).endElement name
  | endTag name => exact h.endElement name
  | text s => exact ⟨h.opened, h.done⟩
  | comment s => exact h.addLeaf _ _
  | doctype s => exact h.addLeaf _ _
  | «section» s => exact h.addLeaf _ _
  | instruction s => exact h.addLeaf _ _

theorem Named.finish (h : b.Named) : ∀ n ∈ b.finish, n.Named :=
  fun n hn => (h.endText.closeMany _).done n (List.mem_reverse.mp hn)

end Building

theorem named_of_tokens {ts : List Token} (h : Token.AllNamed ts) : ∀ n ∈ ofTokens ts, n.Named := by
  have hfold : ∀ b : Building, b.Named → (ts.foldl Building.step b).Named := by
    induction ts with
    | nil => exact fun b hb => hb
    | cons t rest ih =>
      rw [Token.AllNamed, List.forall_mem_cons] at h
      exact fun b hb => ih h.2 _ (hb.step h.1)
  exact (hfold {} ⟨by simp, by simp⟩).finish

mutual

theorem named_of_find? {name : String} {found : Node} : ∀ n : Node, n.Named →
    n.find? name = some found → found.Named
  | .element n as cs => by
    intro hn h
    rw [find?] at h
    split at h
    · cases h
      exact hn
    · exact named_of_findIn? cs (named_element.mp hn).2 h
  | .leaf .. => by
    intro _ h
    cases h

theorem named_of_findIn? {name : String} {found : Node} : ∀ ns : List Node, (∀ n ∈ ns, n.Named) →
    findIn? name ns = some found → found.Named
  | [] => by
    intro _ h
    cases h
  | n :: rest => by
    intro hns h
    rw [List.forall_mem_cons] at hns
    rw [findIn?] at h
    split at h
    · rename_i hfound
      cases h
      exact named_of_find? n hns.1 hfound
    · exact named_of_findIn? rest hns.2 h

end

end Node

namespace Document

/-- All elements of a document have such attributes. -/
theorem named_of_read (mode : RootMode) (s : List Char) :
    ∀ n ∈ (Document.read mode s).nodes, n.Named := by
  unfold Document.read
  dsimp only
  split
  · rename_i nodes h
    rcases map_eq_ok.mp h with ⟨ts, hts, rfl⟩
    exact Node.named_of_tokens (Token.scanFrom_named _ _ _ _ _ (by simp [Token.AllNamed]) ts hts)
  · simp

variable {d : Document}

theorem named_of_rootNode? (hd : ∀ n ∈ d.nodes, n.Named) {n : Node} (h : d.rootNode? = some n) :
    n.Named := by
  rw [rootNode?] at h
  split at h
  · rename_i found hfound
    cases h
    rcases Option.bind_eq_some_iff.mp hfound with ⟨name, _, hfound⟩
    exact Node.named_of_findIn? d.nodes hd hfound
  · exact hd n (List.mem_of_find?_eq_some h)

theorem named_of_selectionRoots (hd : ∀ n ∈ d.nodes, n.Named) : ∀ n ∈ d.selectionRoots, n.Named := by
  intro n hn
  rw [selectionRoots] at hn
  split at hn
  · simp at hn
  · rename_i wrapper hwrapper
    have hnamed := Node.named_of_findIn? d.nodes hd hwrapper
    cases wrapper with
    | leaf kind s => simp [Node.childElements, Node.children] at hn
    | element name as cs =>
      have hmem := (List.mem_filter.mp (List.mem_filter.mp hn).1).1
      exact (Node.named_element.mp hnamed).2 n hmem

/-- The elements that the linter begins with are elements of the document. -/
theorem named_of_roots (hd : ∀ n ∈ d.nodes, n.Named) {nodes : List Node}
    (h : Lint.roots d = .ok nodes) : ∀ n ∈ nodes, n.Named := by
  rw [Lint.roots] at h
  dsimp only at h
  split at h
  · split at h
    · cases h
    · rename_i n hn
      split at h
      · cases h
        simpa using named_of_rootNode? hd hn
      · cases h
  · split at h
    · cases h
    · cases h
      exact named_of_selectionRoots hd

end Document

end Markup

end BlockMarkup
