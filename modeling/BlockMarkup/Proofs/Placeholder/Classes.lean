import BlockMarkup.Placeholder.Format
import BlockMarkup.Proofs.Text.Words

/-! # The classes of one element

What formatting does to the classes of a single element. The classes that it writes are words, so
they are the classes that are read from the element afterwards (`classesOf_applyClasses`), and the
first of them is of the kind that its content asks for (`kind_decideInner`).
-/

namespace BlockMarkup

open Markup (Node Attributes ClassAttribute)
open Text (IsWord)

/-! ## Attributes -/

namespace Markup

variable {name key value : String} {as : Attributes}

@[simp] theorem lookup_setAttribute_self : (setAttribute name value as).lookup name = some value := by
  induction as with
  | nil => simp [setAttribute]
  | cons a rest ih =>
    rcases a with ⟨n, v⟩
    rw [setAttribute]
    split
    · rename_i hn
      simp [hn]
    · rename_i hn
      rw [List.lookup_cons, beq_eq_false_iff_ne.mpr (Ne.symm hn), ih]

theorem lookup_setAttribute_of_ne (h : key ≠ name) :
    (setAttribute name value as).lookup key = as.lookup key := by
  induction as with
  | nil => simp [setAttribute, List.lookup_cons, beq_eq_false_iff_ne.mpr h]
  | cons a rest ih =>
    rcases a with ⟨n, v⟩
    rw [setAttribute]
    split
    · rename_i hn
      rw [List.lookup_cons, List.lookup_cons, beq_eq_false_iff_ne.mpr (hn ▸ h)]
    · rw [List.lookup_cons, List.lookup_cons, ih]

end Markup

/-! ## Placeholders -/

namespace Placeholder

variable {n : NamingOptions} {name placeholder : String} {classes : List String}

theorem isWord_block : IsWord (block n) := by
  rw [block]
  split <;> decide

theorem isWord_element : IsWord (element n) := by
  rw [element]
  split <;> decide

theorem isBlank_of_mem_mapFirst {f : String → String}
    (hf : ∀ s : String, (∀ c ∈ s.toList, Text.isBlank c = false) →
      ∀ c ∈ (f s).toList, Text.isBlank c = false)
    (h : ∀ c ∈ name.toList, Text.isBlank c = false) :
    ∀ c ∈ (mapFirst f name).toList, Text.isBlank c = false := by
  rw [mapFirst]
  split
  · simp
  · rename_i c rest hname
    rw [hname, List.forall_mem_cons] at h
    intro d hd
    rw [String.toList_append, String.toList_ofList, List.mem_append] at hd
    rcases hd with hd | hd
    · exact hf (String.singleton c) (by simpa using h.1) d hd
    · exact h.2 d hd

theorem isWord_blockOf (h : ∀ c ∈ name.toList, Text.isBlank c = false) :
    IsWord (blockOf n name) := by
  rw [blockOf]
  split
  · exact .of_append (Text.isBlank_of_mem_lower h) (by decide)
  · exact .of_append (Text.isBlank_of_mem_lower h) (by decide)
  · exact .of_append (isBlank_of_mem_mapFirst (fun _ => Text.isBlank_of_mem_lower) h) (by decide)
  · exact .of_append (isBlank_of_mem_mapFirst (fun _ => Text.isBlank_of_mem_upper) h) (by decide)

theorem mem_of_putFirst? {cs : List String} (h : putFirst? placeholder classes = some cs) :
    ∀ c ∈ cs, c = placeholder ∨ c ∈ classes := by
  rw [putFirst?] at h
  split at h
  · cases h
  · cases h
    intro c hc
    rcases List.mem_cons.mp hc with rfl | hc
    · exact Or.inl rfl
    · exact Or.inr (List.mem_of_mem_erase hc)

theorem headD_putFirst : (putFirst placeholder classes).headD "" = placeholder := by
  rw [List.headD_eq_head?_getD, head?_putFirst]
  rfl

end Placeholder

/-! ## Decisions -/

namespace FormatOptions

variable {o : FormatOptions} {classes : List String} {hasContent : Bool} {as : Attributes}

/-- The classes that an element has after a decision about it. -/
def Decision.result (d : Decision) (classes : List String) : List String := d.classes.getD classes

/-- The classes of an element as they are read for formatting. -/
def classesOf (o : FormatOptions) (as : Attributes) : List String := Text.words (o.classSlot as).2

theorem isWord_of_mem_classesOf : ∀ c ∈ o.classesOf as, IsWord c :=
  fun _ hc => Text.isWord_of_mem_words hc

/-- A decision that writes nothing but words. -/
def Decision.Writable (d : Decision) : Prop := ∀ cs, d.classes = some cs → ∀ c ∈ cs, IsWord c

theorem writable_putFirst (h : ∀ c ∈ classes, IsWord c) {placeholder : String} {descends : Bool}
    (hp : IsWord placeholder) :
    (Decision.mk (Placeholder.putFirst? placeholder classes) descends).Writable := by
  intro cs hcs c hc
  rcases Placeholder.mem_of_putFirst? hcs c hc with rfl | hc
  · exact hp
  · exact h c hc

theorem writable_decideRoot (h : ∀ c ∈ classes, IsWord c) : (o.decideRoot classes).Writable := by
  rw [decideRoot]
  split
  · intro cs hcs
    cases hcs
  · exact writable_putFirst h Placeholder.isWord_block

theorem writable_decideInner (h : ∀ c ∈ classes, IsWord c) :
    (o.decideInner classes hasContent).Writable := by
  unfold decideInner
  dsimp only
  split
  · intro cs hcs
    cases hcs
  · -- the first class becomes the name of a Block
    intro cs hcs c hc
    cases hcs
    rcases List.mem_cons.mp hc with rfl | hc
    · refine Placeholder.isWord_blockOf ?_
      cases classes with
      | nil => simp
      | cons base rest => exact (h base List.mem_cons_self).2
    · exact h c (List.mem_of_mem_tail hc)
  · intro cs hcs
    cases hcs
  · exact writable_putFirst h Placeholder.isWord_block
  · exact writable_putFirst h Placeholder.isWord_element

/-- The classes that are written are found in the attribute that held the classes before. -/
theorem classSlot_applyClasses (d : Decision) :
    o.classSlot (o.applyClasses as d) =
      ((o.classSlot as).1, (d.classes.map (" ".intercalate ·)).getD (o.classSlot as).2) := by
  rw [applyClasses]
  cases d.classes with
  | none => rfl
  | some cs =>
    have hne : ClassAttribute.internalName ≠ "class" := by decide
    cases hinternal : as.lookup ClassAttribute.internalName with
    | some v => simp [classSlot, hinternal]
    | none =>
      cases hclass : as.lookup "class" with
      | some v =>
        simp [classSlot, hinternal, hclass, Markup.lookup_setAttribute_of_ne hne]
      | none =>
        cases hattribute : o.classAttribute with
        | plain =>
          simp [classSlot, hinternal, hclass, hattribute, Markup.lookup_setAttribute_of_ne hne]
        | camel => simp [classSlot, hinternal, hclass, hattribute]

theorem classesOf_applyClasses {d : Decision} (h : d.Writable) :
    o.classesOf (o.applyClasses as d) = d.result (o.classesOf as) := by
  rw [classesOf, classSlot_applyClasses, Decision.result]
  cases hd : d.classes with
  | none => rfl
  | some cs => exact Text.words_intercalate (h cs hd)

/-! ## Kinds -/

/-- The names that formatting invents are of the kind they stand for. -/
structure Consistent (o : FormatOptions) : Prop where
  block : o.naming.classify (Placeholder.block o.naming) = .block
  element : o.naming.classify (Placeholder.element o.naming) = .element

/-- An Element of this name can become a Block. -/
def Promotes (o : FormatOptions) (name : String) : Prop :=
  o.naming.classify name = .element →
    o.naming.classify (Placeholder.blockOf o.naming name) = .block

instance (o : FormatOptions) (name : String) : Decidable (o.Promotes name) :=
  inferInstanceAs (Decidable (_ → _))

/-- The first class is of the kind that the content asks for. -/
def Fits (o : FormatOptions) (base : String) (hasContent : Bool) : Prop :=
  (hasContent = true → o.naming.classify base = .block) ∧
    (o.naming.classify base = .block ∨ o.naming.classify base = .element)

theorem fits_of_block {base : String} (h : o.naming.classify base = .block) :
    o.Fits base hasContent :=
  ⟨fun _ => h, Or.inl h⟩

theorem kind_decideRoot (ho : o.Consistent) :
    o.naming.classify (((o.decideRoot classes).result classes).headD "") = .block := by
  have hplaceholder : o.naming.classify
      ((Placeholder.putFirst (Placeholder.block o.naming) classes).headD "") = .block := by
    rw [Placeholder.headD_putFirst]
    exact ho.block
  rw [decideRoot, Decision.result]
  split
  · assumption
  · exact hplaceholder

/-- After a decision the first class is of the kind that the content asks for. -/
theorem kind_decideInner (ho : o.Consistent) (hbase : o.Promotes (classes.headD "")) :
    o.Fits (((o.decideInner classes hasContent).result classes).headD "") hasContent := by
  unfold decideInner Decision.result
  dsimp only
  split
  · rename_i hkind
    exact fits_of_block hkind
  · rename_i hkind
    exact fits_of_block (hbase hkind)
  · rename_i hkind
    exact ⟨by simp, Or.inr hkind⟩
  · have hhead : (Placeholder.putFirst (Placeholder.block o.naming) classes).headD "" =
        Placeholder.block o.naming := Placeholder.headD_putFirst
    exact fits_of_block (hhead.symm ▸ ho.block)
  · have hhead : (Placeholder.putFirst (Placeholder.element o.naming) classes).headD "" =
        Placeholder.element o.naming := Placeholder.headD_putFirst
    exact ⟨by simp, Or.inr (hhead.symm ▸ ho.element)⟩

end FormatOptions

end BlockMarkup
