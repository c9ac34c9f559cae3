import Mathlib
import SceneText.Format.Document

/-!
# Proofs/Format/Alike — values are read off rules and words alone

Readers look up children by their rules, and look at the text of words and names alone; the place of
a node goes into findings, nothing else.  So two nodes that agree in this (`Corresponds`) have the
same value, or findings that correspond (`Structural.read_alike`).
-/

namespace SceneText

variable {α β : Type}

/-! ## Outcomes that are alike -/

/-- **Outcomes are alike**: the same value, or findings that correspond. -/
inductive Alike (R : Finding → Finding → Prop) : Except Finding α → Except Finding α → Prop
  | ok (a : α) : Alike R (.ok a) (.ok a)
  | error {e e' : Finding} : R e e' → Alike R (.error e) (.error e')

namespace Alike

variable {R : Finding → Finding → Prop} {x x' : Except Finding α}

theorem ok_iff (h : Alike R x x') {a : α} : x' = .ok a ↔ x = .ok a := by
  cases h <;> simp

/-- Steps that are alike make up wholes that are. -/
theorem bind {f f' : α → Except Finding β} (hx : Alike R x x') (hf : ∀ a, Alike R (f a) (f' a)) :
    Alike R (x >>= f) (x' >>= f') := by
  cases hx with
  | ok a => exact hf a
  | error he => exact .error he

theorem map {f : α → β} (hx : Alike R x x') : Alike R (f <$> x) (f <$> x') := by
  cases hx with
  | ok a => exact .ok (f a)
  | error he => exact .error he

theorem mapM {P : Node → Node → Prop} {read : Node → Except Finding α} {ns ns' : List Node}
    (hread : ∀ n n', P n n' → Alike R (read n) (read n')) (h : List.Forall₂ P ns ns') :
    Alike R (ns.mapM read) (ns'.mapM read) := by
  induction h with
  | nil => exact .ok []
  | cons hn _ ih =>
    rw [List.mapM_cons, List.mapM_cons]
    exact (hread _ _ hn).bind fun a => ih.bind fun as => .ok (a :: as)

end Alike

/-! ## Nodes that correspond -/

/-- The rules of nodes whose text is read. -/
def wordRules : List Rule := [.number, .name, .styleName, .colorName]

/-- **Nodes correspond**: they have the same rule, children that correspond, and the same text where
that is read; and findings that show them correspond. -/
structure Corresponds (S : Node → Node → Prop) (R : Finding → Finding → Prop) : Prop where
  rule {n n' : Node} : S n n' → n'.rule = n.rule
  children {n n' : Node} : S n n' → List.Forall₂ S n.children n'.children
  text {n n' : Node} : S n n' → n.rule ∈ wordRules → n'.text = n.text
  start {n n' : Node} (fault : Fault) (length : Nat) :
    S n n' → R ⟨fault, ⟨n.start, length⟩⟩ ⟨fault, ⟨n'.start, length⟩⟩
  keyword {n n' : Node} (name : String) : S n n' → R (.emptyGroup n name) (.emptyGroup n' name)

namespace Corresponds

variable {S : Node → Node → Prop} {R : Finding → Finding → Prop} (h : Corresponds S R) {n n' : Node}
  {r : Rule}

include h

theorem childrenOf (hn : S n n') (r : Rule) :
    List.Forall₂ (fun c c' => S c c' ∧ c.rule = r) (n.childrenOf r) (n'.childrenOf r) := by
  have hchildren := h.children hn
  rw [Node.childrenOf, Node.childrenOf]
  generalize n.children = ns at hchildren ⊢
  generalize n'.children = ns' at hchildren ⊢
  induction hchildren with
  | nil => exact .nil
  | @cons c c' _ _ hc _ ih =>
    by_cases hr : c.rule = r
    · rw [List.filter_cons_of_pos (by simpa using hr),
        List.filter_cons_of_pos (by simpa [h.rule hc] using hr)]
      exact .cons ⟨hc, hr⟩ ih
    · rwa [List.filter_cons_of_neg (by simpa using hr),
        List.filter_cons_of_neg (by simpa [h.rule hc] using hr)]

/-- A child is found in both nodes or in none. -/
theorem childOf? (hn : S n n') (r : Rule) :
    n.childOf? r = none ∧ n'.childOf? r = none ∨
      ∃ c c', n.childOf? r = some c ∧ n'.childOf? r = some c' ∧ S c c' ∧ c.rule = r := by
  have hfirst := h.childrenOf hn r
  rw [Node.childOf?, Node.childOf?, ← List.head?_filter, ← List.head?_filter, ← Node.childrenOf,
    ← Node.childrenOf]
  generalize n.childrenOf r = ns at hfirst ⊢
  generalize n'.childrenOf r = ns' at hfirst ⊢
  cases hfirst with
  | nil => exact .inl ⟨rfl, rfl⟩
  | cons hc => exact .inr ⟨_, _, rfl, rfl, hc⟩

/-- What is read from a child is alike. -/
theorem child_bind {f f' : Node → Except Finding α} (hn : S n n')
    (hf : ∀ c c', S c c' → c.rule = r → Alike R (f c) (f' c')) :
    Alike R (n.child r >>= f) (n'.child r >>= f') := by
  rw [Node.child, Node.child]
  rcases h.childOf? hn r with ⟨hnone, hnone'⟩ | ⟨c, c', hc, hc', hcc', hr⟩
  · rw [hnone, hnone', h.rule hn]
    exact .error (h.start _ _ hn)
  · rw [hc, hc']
    exact hf c c' hcc' hr

/-! ## Numbers, words and names -/

/-- The same word in both nodes has the same fault. -/
theorem ofWord (fault : String → Fault) (hn : S n n') (hr : n.rule ∈ wordRules) :
    R (.ofWord fault n) (.ofWord fault n') := by
  rw [Finding.ofWord, Finding.ofWord, h.text hn hr]
  exact h.start _ _ hn

theorem readNumber_alike (hn : S n n') (hr : n.rule = .number) :
    Alike R (readNumber n) (readNumber n') := by
  have hword : n.rule ∈ wordRules := by simp [hr, wordRules]
  rw [readNumber, readNumber, h.text hn hword]
  split
  · exact .ok _
  · exact .error (h.ofWord _ hn hword)

theorem readNumbers_alike (hn : S n n') : Alike R (readNumbers n) (readNumbers n') :=
  .mapM (fun _ _ hc => h.readNumber_alike hc.1 hc.2) (h.childrenOf hn .number)

theorem readWord_alike (v : Vocabulary α) (unknown : String → Fault) (hn : S n n')
    (hr : n.rule ∈ wordRules) : Alike R (readWord v unknown n) (readWord v unknown n') := by
  rw [readWord, readWord, h.text hn hr]
  split
  · exact .ok _
  · exact .error (h.ofWord _ hn hr)

theorem readName_eq (hn : S n n') : readName n' = readName n := by
  rw [readName, readName]
  rcases h.childOf? hn .name with ⟨hnone, hnone'⟩ | ⟨c, c', hc, hc', hcc', hr⟩
  · rw [hnone, hnone']
  · simp only [hc, hc', h.text hcc' (by simp [hr, wordRules])]

end Corresponds

/-! ## The nine types -/

/-- **A type whose values are read off rules and words alone.** -/
class Structural (α : Type) [Textual α] : Prop where
  /-- Nodes that correspond have the same value, or findings that correspond. -/
  read_alike {S : Node → Node → Prop} {R : Finding → Finding → Prop} (h : Corresponds S R)
    {n n' : Node} (hn : S n n') : Alike R (Textual.read n : Except Finding α) (Textual.read n')

open Structural

instance : Structural (Point Float) where
  read_alike h n n' hn := by
    refine (h.readNumbers_alike hn).bind fun xs => ?_
    rcases xs with _ | ⟨x, _ | ⟨y, _ | ⟨z, zs⟩⟩⟩
    · exact .error (h.start _ _ hn)
    · exact .error (h.start _ _ hn)
    · exact .ok _
    · exact .error (h.start _ _ hn)

namespace Corresponds

variable {S : Node → Node → Prop} {R : Finding → Finding → Prop} (h : Corresponds S R) {n n' : Node}

include h

theorem readForm_alike (form : TransformForm) (hn : S n n') :
    Alike R (form.read n) (form.read n') := by
  refine (h.readNumbers_alike hn).bind fun xs => ?_
  cases form.assemble? xs with
  | none => exact .error (h.start _ _ hn)
  | some t => exact .ok t

/-- A list of values of one rule is alike if they are. -/
theorem mapM_childrenOf_alike [Textual α] [Structural α] (r : Rule) (hn : S n n') :
    Alike R ((n.childrenOf r).mapM (Textual.read : Node → Except Finding α))
      ((n'.childrenOf r).mapM Textual.read) :=
  .mapM (fun _ _ hc => read_alike h hc.1) (h.childrenOf hn r)

end Corresponds

instance : Structural (Transform Float) where
  read_alike h n n' hn := by
    have hchildren := h.children hn
    simp only [Textual.read]
    generalize n.children = ns at hchildren ⊢
    generalize n'.children = ns' at hchildren ⊢
    cases hchildren with
    | nil => exact .error (h.start _ _ hn)
    | @cons c c' _ _ hc =>
      simp only [h.rule hc]
      cases TransformForm.ofRule? c.rule with
      | none => exact .error (h.start _ _ hn)
      | some form => exact h.readForm_alike form hc

instance : Structural DrawStyle where
  read_alike h n n' hn := by
    refine h.child_bind hn fun styleWord styleWord' hstyle hr => ?_
    refine h.child_bind hn fun colorWord colorWord' hcolor hr' => ?_
    refine (h.readWord_alike _ _ hstyle (by simp [hr, wordRules])).bind fun style => ?_
    exact (h.readWord_alike _ _ hcolor (by simp [hr', wordRules])).bind fun color => .ok _

instance : Structural (List (Point Float)) := ⟨fun h _ _ => h.mapM_childrenOf_alike .point⟩

instance : Structural (List (Transform Float)) := ⟨fun h _ _ => h.mapM_childrenOf_alike .transform⟩

namespace Corresponds

variable {S : Node → Node → Prop} {R : Finding → Finding → Prop} (h : Corresponds S R) {n n' : Node}

include h

theorem readList_alike [Textual (List α)] [Structural (List α)] (r : Rule) (hn : S n n') :
    Alike R (readList r n : Except Finding (List α)) (readList r n') := by
  rw [readList, readList]
  rcases h.childOf? hn r with ⟨hnone, hnone'⟩ | ⟨c, c', hc, hc', hcc', -⟩
  · rw [hnone, hnone']
    exact .ok []
  · rw [hc, hc']
    exact read_alike h hcc'

theorem readRecord_alike (hn : S n n') : Alike R (readRecord n) (readRecord n') := by
  refine h.child_bind hn fun comment comment' hcomment _ => ?_
  refine h.child_bind hn fun style style' hstyle _ => ?_
  refine (read_alike h hstyle).bind fun drawStyle => ?_
  refine h.child_bind hn fun trailing trailing' htrailing _ => ?_
  refine (h.readList_alike .transforms htrailing).bind fun transforms => ?_
  rw [h.readName_eq hcomment]
  exact .ok _

end Corresponds

instance : Structural (Shape Float) where
  read_alike h n n' hn := by
    have hchildren := h.children hn
    have hrecord := h.readRecord_alike hn
    simp only [Textual.read]
    generalize n.children = ns at hchildren ⊢
    generalize n'.children = ns' at hchildren ⊢
    cases hchildren with
    | nil => exact .error (h.start _ _ hn)
    | @cons c c' _ _ hc =>
      simp only [h.rule hc]
      cases ShapeKind.ofRule? c.rule with
      | none => exact .error (h.start _ _ hn)
      | some kind => exact hrecord.map

instance : Structural (List (Shape Float)) := ⟨fun h _ _ => h.mapM_childrenOf_alike .shape⟩

/-- A group is read part by part, its shapes last. -/
theorem read_group (n : Node) : (Textual.read n : Except Finding (Group Float)) =
    n.child .comment >>= fun comment => n.child .trailingTransforms >>= readTrailing >>=
      fun transforms => readList .shapes n >>= fun shapes =>
        if shapes.isEmpty then .error (.emptyGroup n (readName comment))
        else .ok ⟨readName comment, transforms, shapes⟩ := by
  simp only [Textual.read, bind_assoc]
  rfl

instance : Structural (Group Float) where
  read_alike h n n' hn := by
    rw [read_group, read_group]
    refine h.child_bind hn fun comment comment' hcomment _ => ?_
    refine .bind (h.child_bind hn fun _ _ htrailing _ => h.readList_alike .transforms htrailing)
      fun transforms => ?_
    refine (h.readList_alike .shapes hn).bind fun shapes => ?_
    rw [h.readName_eq hcomment]
    split
    · exact .error (h.keyword _ hn)
    · exact .ok _

instance : Structural (Document Float) where
  read_alike h _ _ hn := (h.mapM_childrenOf_alike (α := Group Float) .group hn).map

end SceneText
