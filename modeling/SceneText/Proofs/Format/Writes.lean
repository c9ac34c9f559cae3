import SceneText.Proofs.Format.Canonical

/-!
# Proofs/Format/Writes — what writing a value yields

`out.Writes P s` says that an output is the text `s` where `P` holds and ends in an error elsewhere.
Outputs that are chained or joined write what their parts write, so that the text of a value is made
up of its canonical lines, and there is one exactly if the value is printable (`writes_canonical`).
-/

namespace SceneText

/-- Where a condition holds an output is a text, and elsewhere it ends in an error. -/
structure Output.Writes (out : Output) (P : Prop) (s : List Char) : Prop where
  error?_eq_none_iff : out.error? = none ↔ P
  toList_text : P → out.text.toList = s

namespace Output

variable {out a b : Output} {P Q : Prop} {s t : List Char}

/-! ## Outputs -/

theorem writes_nothing : nothing.Writes True [] := ⟨by simp [nothing], fun _ => rfl⟩

theorem writes_write (text : String) : (write text).Writes True text.toList :=
  ⟨by simp [write], fun _ => rfl⟩

theorem writes_fail (error : PrintError) : (fail error).Writes False s := ⟨by simp [fail], nofun⟩

theorem Writes.congr (h : out.Writes P s) (hP : P ↔ Q) (hs : Q → s = t) : out.Writes Q t :=
  ⟨h.1.trans hP, fun hQ => (h.2 (hP.2 hQ)).trans (hs hQ)⟩

/-- **One output after the other writes what both write.** -/
theorem Writes.append (ha : a.Writes P s) (hb : b.Writes Q t) :
    (a ++ b).Writes (P ∧ Q) (s ++ t) := by
  obtain ⟨text, error?⟩ := a
  obtain ⟨ha, hs⟩ := ha
  obtain ⟨hb, ht⟩ := hb
  -- the second output counts only where the first has no error
  cases error? with
  | none =>
    have hP := ha.1 rfl
    refine ⟨hb.trans (by simp [hP]), fun hPQ => ?_⟩
    rw [append_def, Output.append, String.toList_append, hs hP, ht hPQ.2]
  | some error =>
    have hP : ¬ P := fun hP => by simpa using ha.2 hP
    exact ⟨by simp [append_def, Output.append, hP], fun hPQ => absurd hPQ.1 hP⟩

theorem concat_cons (out : Output) (outs : List Output) :
    concat (out :: outs) = out ++ concat outs := rfl

section Lists

variable {α : Type} {write' : α → Output} {Q : α → Prop} {text : α → List Char}

/-- Outputs one after the other write what all of them write. -/
theorem writes_concat_map (h : ∀ a, (write' a).Writes (Q a) (text a)) (as : List α) :
    (concat (as.map write')).Writes (∀ a ∈ as, Q a) (as.flatMap text) := by
  induction as with
  | nil => exact writes_nothing.congr (by simp) fun _ => rfl
  | cons a as ih =>
    exact ((h a).append ih).congr List.forall_mem_cons.symm fun _ => List.flatMap_cons.symm

/-- Behind the first of outputs that are joined, the others stand each behind the separator. -/
theorem join_cons (separator : String) (out : Output) (outs : List Output) :
    join separator (out :: outs) = out ++ concat (outs.map (write separator ++ ·)) := by
  rw [join]
  induction outs generalizing out with
  | nil => rfl
  | cons out' outs ih =>
    rw [List.intersperse_cons_cons, concat_cons, concat_cons, ih, List.map_cons, concat_cons,
      append_assoc]

/-- **Outputs with a text between them write what is between and what all of them write.** -/
theorem writes_join_map (separator : String) (h : ∀ a, (write' a).Writes (Q a) (text a))
    (as : List α) : (join separator (as.map write')).Writes (∀ a ∈ as, Q a)
      (separator.toList.intercalate (as.map text)) := by
  cases as with
  | nil => exact writes_nothing.congr (by simp) fun _ => rfl
  | cons a as =>
    have hmore := writes_concat_map (fun a => (writes_write separator).append (h a)) as
    rw [List.map_cons, join_cons, List.map_map, List.map_cons, intercalate_cons, List.flatMap_map]
    exact ((h a).append hmore).congr (by simp) fun _ => rfl

end Lists

end Output

open Output

variable (ending : LineEnding)

/-! ## What is written, part after part -/

theorem writeNumber_of_isFinite {x : Float} (hx : x.isFinite) :
    writeNumber x = write (Numeral.write x) := by
  rw [writeNumber, Binary64.finite?_eq_ok_iff.2 ⟨hx, rfl⟩]

theorem writeNumber_of_not_isFinite {x : Float} (hx : ¬ x.isFinite) :
    writeNumber x = fail (.nonFiniteNumber x) := by
  rw [writeNumber]
  cases h : finite? x with
  | ok y => exact absurd (Binary64.finite?_eq_ok_iff.1 h).1 hx
  | error _ => rfl

/-- Nothing is written of a name with a defect. -/
theorem writeName_of_nameDefect? {name : String} {why : UnprintableName}
    (h : nameDefect? name = some why) : writeName name = fail (.unprintableName name why) := by
  have hne : ¬ name.isEmpty := fun hempty => by
    rw [String.isEmpty_iff.1 hempty] at h
    cases h
  rw [writeName, if_neg hne, h]

/-- A transform is written as one of its own form. -/
theorem write_transform (t : Transform Float) : Textual.write ending t =
    write t.form.tag ++ concat (t.operands.map fun x => write " " ++ writeNumber x) := by
  simp only [Textual.write, TransformForm.write, TransformForm.disassemble,
    TransformForm.disassemble?_form]

/-- A shape is written as one of its own kind. -/
theorem write_shape (s : Shape Float) : Textual.write ending s =
    write s.kind.keyword ++ writeName s.name ++ write ending.text ++
      Textual.write ending s.drawStyle ++ writeTrailing ending s.transforms := by
  simp only [Textual.write, ShapeKind.write, ShapeKind.disassemble, ShapeKind.disassemble?,
    if_true]

theorem write_group {g : Group Float} (h : g.shapes ≠ []) : Textual.write ending g =
    write "group" ++ writeName g.name ++ writeTrailing ending g.transforms ++
      write (ending.text ++ ending.text) ++ Textual.write ending g.shapes :=
  if_neg (by simpa using h)

/-- Nothing is written of a group without shapes. -/
theorem write_group_of_eq_nil {g : Group Float} (h : g.shapes = []) :
    Textual.write ending g = fail (.emptyGroup g.name) :=
  if_pos (by simpa using h)

/-! ## Lines -/

theorem writes_number (x : Float) :
    (writeNumber x).Writes (x.isFinite) (Numeral.write x).toList := by
  by_cases hx : x.isFinite
  · rw [writeNumber_of_isFinite hx]
    exact (writes_write _).congr (by simp [hx]) fun _ => rfl
  · rw [writeNumber_of_not_isFinite hx]
    exact (writes_fail _).congr (by simp [hx]) fun _ => rfl

/-- A name has no defect if it can stand behind a keyword. -/
theorem nameDefect?_eq_none_iff {name : String} : nameDefect? name = none ↔ PrintableName name := by
  have hline : name.toList.any isLineBreak = false ↔ OneLine name.toList := by simp [OneLine]
  have hblank : name.toList.head?.any isBlank = false ↔ Stops isBlank name.toList := by
    cases name.toList <;> simp
  rw [PrintableName, ← hline, ← hblank, nameDefect?]
  cases name.toList.any isLineBreak <;> cases name.toList.head?.any isBlank <;> simp

theorem writes_header (keyword name : String) :
    (write keyword ++ writeName name).Writes (PrintableName name) (header keyword name) := by
  rw [writeName, header]
  split
  case isTrue hempty =>
    have hname : PrintableName name := by simp [String.isEmpty_iff.1 hempty, PrintableName, OneLine]
    exact ((writes_write keyword).append writes_nothing).congr (by simp [hname]) fun _ => rfl
  case isFalse =>
    cases hdefect : nameDefect? name with
    | none =>
      have h := (writes_write keyword).append ((writes_write " ").append (writes_write name))
      exact h.congr (by simp [nameDefect?_eq_none_iff.1 hdefect]) fun _ => rfl
    | some why =>
      have hname : ¬ PrintableName name := fun h => by
        rw [nameDefect?_eq_none_iff.2 h] at hdefect
        cases hdefect
      have h := (writes_write keyword).append
        (writes_fail (s := ' ' :: name.toList) (.unprintableName name why))
      exact h.congr (by simp [hname]) fun _ => rfl

theorem writes_point (v : Point Float) : (Textual.write ending v).Writes v.Printable v.line := by
  have h := ((writes_number v.x).append (writes_write " ")).append (writes_number v.y)
  exact h.congr (by simp [Point.Printable]) fun _ => by simp [Point.line, spaced]

theorem writes_transform (t : Transform Float) :
    (Textual.write ending t).Writes t.Printable t.line := by
  have hoperands := writes_concat_map (fun x => (writes_write " ").append (writes_number x))
    t.operands
  have h := (writes_write t.form.tag).append hoperands
  rw [write_transform]
  refine h.congr (by simp [Transform.Printable]) fun _ => ?_
  rw [Transform.line, spaced, intercalate_cons, List.flatMap_map]
  rfl

theorem writes_drawStyle (d : DrawStyle) : (Textual.write ending d).Writes True d.line := by
  have h := ((writes_write d.style.keyword).append (writes_write " ")).append
    (writes_write d.color.keyword)
  exact h.congr (by simp) fun _ => by simp [DrawStyle.line, spaced]

/-! ## Blocks of lines -/

theorem writes_transforms (ts : List (Transform Float)) :
    (Textual.write ending ts).Writes (∀ t ∈ ts, t.Printable)
      (joinLines ending.text.toList (ts.map Transform.line)) :=
  writes_join_map ending.text (writes_transform ending) ts

/-- Under a header stand transforms, each behind a line end. -/
theorem writes_trailing (ts : List (Transform Float)) :
    (writeTrailing ending ts).Writes (∀ t ∈ ts, t.Printable)
      ((ts.map Transform.line).flatMap (ending.text.toList ++ ·)) := by
  have h := writes_concat_map
    (fun t => (writes_write ending.text).append (writes_transform ending t)) ts
  exact h.congr (by simp) fun _ => by rw [List.flatMap_map]

theorem writes_shape (s : Shape Float) : (Textual.write ending s).Writes s.Printable
    (joinLines ending.text.toList s.lines) := by
  have h := (((writes_header s.kind.keyword s.name).append (writes_write ending.text)).append
    (writes_drawStyle ending s.drawStyle)).append (writes_trailing ending s.transforms)
  rw [write_shape]
  refine h.congr (by simp [Shape.Printable]) fun _ => ?_
  simp [Shape.lines, joinLines_cons]

/-- Around an empty line stand two line ends. -/
theorem joinLines_append_nil_cons {brk : List Char} {ls ls' : List (List Char)} (h : ls ≠ [])
    (h' : ls' ≠ []) :
    joinLines brk (ls ++ [] :: ls') = joinLines brk ls ++ (brk ++ brk ++ joinLines brk ls') := by
  have hempty : joinLines brk ([[]] ++ ls') = brk ++ joinLines brk ls' :=
    joinLines_append (by simp) h'
  rw [joinLines_append h (by simp), ← List.singleton_append, hempty, List.append_assoc]

theorem apart_ne_nil {b : List (List Char)} (hb : b ≠ []) (bs : List (List (List Char))) :
    apart (b :: bs) ≠ [] := by
  rw [apart, intercalate_cons]
  exact List.append_ne_nil_of_left_ne_nil hb _

/-- Blocks of values are lines, if there is a value. -/
theorem apart_map_ne_nil {α : Type} {block : α → List (List Char)} {as : List α}
    (hblock : ∀ a, block a ≠ []) (h : as ≠ []) : apart (as.map block) ≠ [] := by
  obtain ⟨a, as, rfl⟩ := List.exists_cons_of_ne_nil h
  exact apart_ne_nil (hblock a) _

theorem apart_cons_cons (b b' : List (List Char)) (bs : List (List (List Char))) :
    apart (b :: b' :: bs) = b ++ [] :: apart (b' :: bs) := by
  rw [apart, List.intercalate_cons_cons, List.append_assoc]
  rfl

/-- **Blocks an empty line apart are texts two line ends apart.** -/
theorem joinLines_apart {brk : List Char} {bs : List (List (List Char))} (h : ∀ b ∈ bs, b ≠ []) :
    joinLines brk (apart bs) = (brk ++ brk).intercalate (bs.map (joinLines brk)) := by
  induction bs with
  | nil => rfl
  | cons b bs ih =>
    obtain ⟨hb, hbs⟩ := List.forall_mem_cons.1 h
    cases bs with
    | nil => simp [apart]
    | cons b' bs =>
      have hb' := hbs b' List.mem_cons_self
      rw [apart_cons_cons, joinLines_append_nil_cons hb (apart_ne_nil hb' bs), ih hbs,
        List.map_cons, List.map_cons, List.map_cons, List.intercalate_cons_cons,
        List.append_assoc (joinLines brk b)]

/-- Values that are written a block each are written together as blocks an empty line apart. -/
theorem writes_blocks {α : Type} {write' : α → Output} {Q : α → Prop} {block : α → List (List Char)}
    (hne : ∀ a, block a ≠ [])
    (h : ∀ a, (write' a).Writes (Q a) (joinLines ending.text.toList (block a))) (as : List α) :
    (join (ending.text ++ ending.text) (as.map write')).Writes (∀ a ∈ as, Q a)
      (joinLines ending.text.toList (apart (as.map block))) := by
  refine (writes_join_map (ending.text ++ ending.text) h as).congr Iff.rfl fun _ => ?_
  rw [joinLines_apart (List.forall_mem_map.2 fun a _ => hne a), List.map_map, String.toList_append]
  rfl

theorem writes_shapes (ss : List (Shape Float)) :
    (Textual.write ending ss).Writes (∀ s ∈ ss, s.Printable)
      (joinLines ending.text.toList (apart (ss.map Shape.lines))) :=
  writes_blocks ending (fun _ => List.cons_ne_nil _ _) (writes_shape ending) ss

theorem writes_group (g : Group Float) : (Textual.write ending g).Writes g.Printable
    (joinLines ending.text.toList g.lines) := by
  by_cases hne : g.shapes = []
  · rw [write_group_of_eq_nil ending hne]
    exact (writes_fail _).congr (by simp [Group.Printable, hne]) fun _ => rfl
  · rw [write_group ending hne]
    have hlines : apart (g.shapes.map Shape.lines) ≠ [] :=
      apart_map_ne_nil (fun _ => List.cons_ne_nil _ _) hne
    have h := (((writes_header "group" g.name).append (writes_trailing ending g.transforms)).append
      (writes_write (ending.text ++ ending.text))).append (writes_shapes ending g.shapes)
    refine h.congr (by simp [Group.Printable, hne, and_assoc]) fun _ => ?_
    rw [Group.lines, ← List.cons_append, joinLines_append_nil_cons (List.cons_ne_nil _ _) hlines,
      joinLines_cons, String.toList_append, List.append_assoc]

/-- **A value is written as its lines**, if it is printable; else there is an error. -/
theorem writes_canonical (p : Part) (v : p.Value) : (Textual.write ending v).Writes (p.Printable v)
    (joinLines ending.text.toList (p.canonical v)) := by
  cases p with
  | point => exact (writes_point ending v).congr Iff.rfl fun _ => List.intercalate_singleton.symm
  | points => exact writes_join_map ending.text (writes_point ending) v
  | transform =>
    exact (writes_transform ending v).congr Iff.rfl fun _ => List.intercalate_singleton.symm
  | transforms => exact writes_transforms ending v
  | drawStyle =>
    exact (writes_drawStyle ending v).congr Iff.rfl fun _ => List.intercalate_singleton.symm
  | shape => exact writes_shape ending v
  | shapes => exact writes_shapes ending v
  | group => exact writes_group ending v
  | document =>
    have h := writes_blocks ending (fun _ => List.cons_ne_nil _ _) (writes_group ending) v.groups
    refine h.congr Iff.rfl fun _ => ?_
    rw [Part.canonical, Document.lines]
    split
    case isTrue hnone =>
      rw [hnone]
      rfl
    case isFalse => rfl

/-- Printing yields what is written if no error ends it. -/
theorem printWith_eq_ok_iff_write {α : Type} [Textual α] {ending : LineEnding} {v : α}
    {text : String} : printWith ending v = .ok text ↔
      (Textual.write ending v).error? = none ∧ (Textual.write ending v).text = text := by
  rw [printWith, toExcept]
  cases (Textual.write ending v).error? <;> simp

/-- **Printing yields the lines of the value**, exactly if it is printable. -/
theorem printWith_eq_ok_iff (p : Part) {v : p.Value} {text : String} :
    printWith ending v = .ok text ↔
      p.Printable v ∧ text.toList = joinLines ending.text.toList (p.canonical v) := by
  obtain ⟨herror, htext⟩ := writes_canonical ending p v
  rw [printWith_eq_ok_iff_write, herror]
  refine and_congr_right fun hv => ?_
  rw [← htext hv, String.toList_inj, eq_comm]

end SceneText
