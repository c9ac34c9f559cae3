import SceneText.Proofs.Format.Writes

/-!
# Proofs/Format/Defects — why a value has no text

A number that is not finite, a name that holds a line break or begins with a blank, a group without
shapes: each is a **defect** of the value it stands in, and `Part.defects` lists them in the order in
which the value is written.  An output ends in the first error among its parts (`error?_append`,
`error?_join`), so what ends the writing of a value is the first of its defects (`error?_write_part`):
a value without defects is printed, and of any other the first defect is told
(`printWith_first_defect`).
-/

namespace SceneText

/-! ## Defects, in the order of writing -/

/-- A number that is not finite. -/
def numberDefects (x : Float) : List PrintError :=
  if x.isFinite then [] else [.nonFiniteNumber x]

/-- A line break in a name, then a blank at its front. -/
def nameDefects (name : String) : List PrintError :=
  (if name.toList.any isLineBreak then [.unprintableName name .lineBreak] else []) ++
    if name.toList.head?.any isBlank then [.unprintableName name .leadingBlank] else []

/-- The defects of both numbers. -/
def Point.defects (v : Point Float) : List PrintError := numberDefects v.x ++ numberDefects v.y

/-- The defects of all numbers. -/
def Transform.defects (t : Transform Float) : List PrintError := t.operands.flatMap numberDefects

/-- The defects of the name, then those of the transforms. -/
def Shape.defects (s : Shape Float) : List PrintError :=
  nameDefects s.name ++ s.transforms.flatMap Transform.defects

/-- That there is no shape, then the defects of the name, of the transforms and of the shapes. -/
def Group.defects (g : Group Float) : List PrintError :=
  (if g.shapes = [] then [.emptyGroup g.name] else []) ++
    (nameDefects g.name ++
      (g.transforms.flatMap Transform.defects ++ g.shapes.flatMap Shape.defects))

/-- **The defects of a value**, in the order in which it is written. -/
def Part.defects : (p : Part) → p.Value → List PrintError
  | point, v => v.defects
  | points, vs => vs.flatMap Point.defects
  | transform, t => t.defects
  | transforms, ts => ts.flatMap Transform.defects
  | drawStyle, _ => []
  | shape, s => s.defects
  | shapes, ss => ss.flatMap Shape.defects
  | group, g => g.defects
  | document, d => d.groups.flatMap Group.defects

/-! ## What ends an output -/

namespace Output

@[simp] theorem error?_nothing : nothing.error? = none := rfl

@[simp] theorem error?_write (text : String) : (write text).error? = none := rfl

@[simp] theorem error?_fail (error : PrintError) : (fail error).error? = some error := rfl

/-- **Of two outputs the first that has an error ends both.** -/
@[simp] theorem error?_append (a b : Output) : (a ++ b).error? = a.error?.or b.error? := by
  obtain ⟨text, _ | error⟩ := a <;> rfl

theorem error?_concat (outs : List Output) : (concat outs).error? = outs.findSome? error? := by
  induction outs with
  | nil => rfl
  | cons out outs ih =>
    rw [concat_cons, error?_append, ih, List.findSome?_cons]
    cases out.error? <;> rfl

/-- **What stands between outputs has no error.** -/
theorem error?_join (separator : String) (outs : List Output) :
    (join separator outs).error? = outs.findSome? error? := by
  cases outs with
  | nil => rfl
  | cons out outs =>
    have hmore : (outs.map (write separator ++ ·)).findSome? error? = outs.findSome? error? := by
      rw [List.findSome?_map]
      rfl
    rw [join_cons, error?_append, error?_concat, hmore, List.findSome?_cons]
    cases out.error? <;> rfl

section Lists

variable {α : Type} {write' : α → Output} {defects : α → List PrintError}

/-- The first error of outputs is the first defect of the values they are written from. -/
theorem findSome?_error?_map (h : ∀ a, (write' a).error? = (defects a).head?) (as : List α) :
    (as.map write').findSome? error? = (as.flatMap defects).head? := by
  rw [List.findSome?_map, List.head?_flatMap]
  exact congrArg (List.findSome? · as) (funext h)

theorem error?_concat_map (h : ∀ a, (write' a).error? = (defects a).head?) (as : List α) :
    (concat (as.map write')).error? = (as.flatMap defects).head? :=
  (error?_concat _).trans (findSome?_error?_map h as)

theorem error?_join_map (separator : String) (h : ∀ a, (write' a).error? = (defects a).head?)
    (as : List α) : (join separator (as.map write')).error? = (as.flatMap defects).head? :=
  (error?_join separator _).trans (findSome?_error?_map h as)

end Lists

end Output

open Output

/-! ## What ends the writing of a value -/

@[simp] theorem error?_writeNumber (x : Float) :
    (writeNumber x).error? = (numberDefects x).head? := by
  rw [numberDefects]
  split
  case isTrue hx => exact congrArg error? (writeNumber_of_isFinite hx)
  case isFalse hx => exact congrArg error? (writeNumber_of_not_isFinite hx)

/-- The defect that is told of a name is its first. -/
theorem head?_nameDefects (name : String) :
    (nameDefects name).head? = (nameDefect? name).map (.unprintableName name) := by
  rw [nameDefects, nameDefect?]
  cases name.toList.any isLineBreak <;> cases name.toList.head?.any isBlank <;> rfl

@[simp] theorem error?_writeName (name : String) :
    (writeName name).error? = (nameDefects name).head? := by
  rw [head?_nameDefects, writeName]
  split
  case isTrue hempty =>
    rw [String.isEmpty_iff.1 hempty]
    rfl
  case isFalse => cases nameDefect? name <;> rfl

variable (ending : LineEnding)

theorem error?_write_point (v : Point Float) :
    (Textual.write ending v).error? = v.defects.head? := by
  simp [Textual.write, Point.defects]

theorem error?_write_transform (t : Transform Float) :
    (Textual.write ending t).error? = t.defects.head? := by
  have hoperand (x : Float) : (write " " ++ writeNumber x).error? = (numberDefects x).head? := by simp
  have hoperands := error?_concat_map hoperand t.operands
  rw [write_transform, error?_append, hoperands]
  rfl

theorem error?_writeTrailing (ts : List (Transform Float)) :
    (writeTrailing ending ts).error? = (ts.flatMap Transform.defects).head? :=
  error?_concat_map (fun t => by simp [error?_write_transform]) ts

theorem error?_write_shape (s : Shape Float) :
    (Textual.write ending s).error? = s.defects.head? := by
  have hstyle : (Textual.write ending s.drawStyle).error? = none := rfl
  simp [write_shape, hstyle, error?_writeTrailing, Shape.defects]

theorem error?_write_shapes (ss : List (Shape Float)) :
    (Textual.write ending ss).error? = (ss.flatMap Shape.defects).head? :=
  error?_join_map _ (error?_write_shape ending) ss

/-- A group without shapes is refused before anything of it is written. -/
theorem error?_write_group (g : Group Float) :
    (Textual.write ending g).error? = g.defects.head? := by
  rw [Group.defects]
  by_cases hnone : g.shapes = []
  · simp [write_group_of_eq_nil ending hnone, hnone]
  · simp [write_group ending hnone, hnone, error?_writeTrailing, error?_write_shapes,
      Option.or_assoc]

/-- **The first defect ends the writing of a value**, whatever the line end. -/
theorem error?_write_part (p : Part) (v : p.Value) :
    (Textual.write ending v).error? = (p.defects v).head? := by
  cases p with
  | point => exact error?_write_point ending v
  | points => exact error?_join_map _ (error?_write_point ending) v
  | transform => exact error?_write_transform ending v
  | transforms => exact error?_join_map _ (error?_write_transform ending) v
  | drawStyle => rfl
  | shape => exact error?_write_shape ending v
  | shapes => exact error?_write_shapes ending v
  | group => exact error?_write_group ending v
  | document => exact error?_join_map _ (error?_write_group ending) v.groups

/-- **A value is printable if it has no defect.** -/
theorem defects_eq_nil_iff (p : Part) {v : p.Value} : p.defects v = [] ↔ p.Printable v := by
  rw [← (writes_canonical .lf p v).error?_eq_none_iff, error?_write_part, List.head?_eq_none_iff]

/-! ## Printing -/

/-- What holds of the three kinds of defects holds of all in a value. -/
theorem forall_mem_defects {P : PrintError → Prop} (number : ∀ x, P (.nonFiniteNumber x))
    (name : ∀ name why, P (.unprintableName name why)) (group : ∀ name, P (.emptyGroup name))
    (p : Part) {v : p.Value} : ∀ e ∈ p.defects v, P e := by
  have hnumber (x : Float) : ∀ e ∈ numberDefects x, P e := by
    rw [numberDefects]
    split <;> simp [number]
  have hname (n : String) : ∀ e ∈ nameDefects n, P e := by
    rw [nameDefects]
    split <;> split <;> simp [name]
  have hpoint (v : Point Float) : ∀ e ∈ v.defects, P e :=
    List.forall_mem_append.2 ⟨hnumber v.x, hnumber v.y⟩
  have htransform (t : Transform Float) : ∀ e ∈ t.defects, P e :=
    List.forall_mem_flatMap.2 fun x _ => hnumber x
  have hshape (s : Shape Float) : ∀ e ∈ s.defects, P e :=
    List.forall_mem_append.2 ⟨hname s.name, List.forall_mem_flatMap.2 fun t _ => htransform t⟩
  have hgroup (g : Group Float) : ∀ e ∈ g.defects, P e := by
    refine List.forall_mem_append.2 ⟨?_, List.forall_mem_append.2 ⟨hname g.name,
      List.forall_mem_append.2 ⟨List.forall_mem_flatMap.2 fun t _ => htransform t,
        List.forall_mem_flatMap.2 fun s _ => hshape s⟩⟩⟩
    split <;> simp [group]
  cases p with
  | point => exact hpoint v
  | points => exact List.forall_mem_flatMap.2 fun v _ => hpoint v
  | transform => exact htransform v
  | transforms => exact List.forall_mem_flatMap.2 fun t _ => htransform t
  | drawStyle => exact List.forall_mem_nil _
  | shape => exact hshape v
  | shapes => exact List.forall_mem_flatMap.2 fun s _ => hshape s
  | group => exact hgroup v
  | document => exact List.forall_mem_flatMap.2 fun g _ => hgroup g

/-- Printing fails with what ends the writing. -/
theorem printWith_eq_error_iff (p : Part) {v : p.Value} {e : PrintError} :
    printWith ending v = .error e ↔ (p.defects v).head? = some e := by
  rw [← error?_write_part ending, printWith, toExcept]
  cases (Textual.write ending v).error? <;> simp

/-- **Printing fails with the first defect.**  A value is printed if all its numbers are finite, all
its names can stand behind keywords and all its groups have shapes.  Else the error is the first of
its defects in the order of writing, and never that a transform or a shape is of another kind than
the one it is written as. -/
theorem printWith_first_defect (p : Part) (v : p.Value) (ending : LineEnding) :
    ((∃ text, printWith ending v = .ok text) ↔ p.Printable v) ∧
      (∀ e, printWith ending v = .error e ↔ (p.defects v).head? = some e) ∧
      (∀ form form', printWith ending v ≠ .error (.formMismatch form form')) ∧
      ∀ kind kind', printWith ending v ≠ .error (.kindMismatch kind kind') := by
  have hdefect {e : PrintError} (he : printWith ending v = .error e) : e ∈ p.defects v :=
    List.mem_of_mem_head? ((printWith_eq_error_iff ending p).1 he)
  refine ⟨?_, fun e => printWith_eq_error_iff ending p, fun form form' he => ?_,
    fun kind kind' he => ?_⟩
  · constructor
    · rintro ⟨text, htext⟩
      exact ((printWith_eq_ok_iff ending p).1 htext).1
    · intro hv
      exact ⟨_, (printWith_eq_ok_iff ending p).2 ⟨hv, String.toList_ofList⟩⟩
  · exact forall_mem_defects (P := (· ≠ .formMismatch form form')) (by simp) (by simp) (by simp) p _
      (hdefect he) rfl
  · exact forall_mem_defects (P := (· ≠ .kindMismatch kind kind')) (by simp) (by simp) (by simp) p _
      (hdefect he) rfl

end SceneText
