import SceneText.Format.Printing
import SceneText.Proofs.Format.Writes

/-!
# Proofs/Format/Printing — printing step by step appends what is written

The procedures that print to a buffer do nothing but append an output to it (`Appends`), the one
that the value they print is written as (`appends_printing`).  So a printer that is printed to, step
by step or at once, ends up the same (`run_printing`).
-/

namespace SceneText

namespace Printing

variable {steps first second between : Printing} {out a b : LineEnding → Output}

/-- **A procedure appends an output**: whatever the buffer holds, the text of the output comes to
stand behind it, and what stops the procedure is the error of the output. -/
def Appends (steps : Printing) (out : LineEnding → Output) : Prop :=
  ∀ p : Printer, p.run steps = p.put out

/-! ## Procedures one after the other -/

/-- The second procedure runs if the first is not stopped. -/
theorem run_andThen (p : Printer) (first second : Printing) :
    p.run (do first; second) = match p.run first with
      | (none, p') => p'.run second
      | (some e, p') => (some e, p') := by
  cases h : first p with
  | ok _ p' => simp only [Printer.run, bind, EStateM.bind, h]
  | error e p' => simp only [Printer.run, bind, EStateM.bind, h]

theorem appends_nothing : Appends (pure ()) fun _ => .nothing := fun p =>
  congrArg (Prod.mk none) p.write_empty.symm

theorem appends_throw (e : PrintError) : Appends (throw e) fun _ => .fail e := fun p =>
  congrArg (Prod.mk (some e)) p.write_empty.symm

theorem appends_keyword (text : String) : (keyword text).Appends fun _ => .write text :=
  fun _ => rfl

theorem appends_space : space.Appends fun _ => .write " " := fun _ => rfl

theorem appends_lineEnd : lineEnd.Appends fun ending => .write ending.text := fun _ => rfl

theorem appends_blankLine : blankLine.Appends fun ending => .write (ending.text ++ ending.text) :=
  fun p => congrArg (Prod.mk none) (p.write_write p.lineEnding.text p.lineEnding.text)

/-- **Of two procedures one after the other, both append in turn.** -/
theorem Appends.andThen (ha : first.Appends a) (hb : second.Appends b) :
    Appends (do first; second) fun ending => a ending ++ b ending := by
  intro p
  rw [run_andThen, ha p, Printer.put]
  cases h : (a p.lineEnding).error? with
  | none =>
    have hsecond := hb (p.write (a p.lineEnding).text)
    simp only [hsecond, Printer.put, Output.append_of_none h, Printer.write_write]
    rfl
  | some e => simp only [Printer.put, Output.append_of_some h, h]

section Lists

variable {α : Type} {each : α → Printing} {write' : LineEnding → α → Output}

theorem appends_forM (h : ∀ x, (each x).Appends fun ending => write' ending x) (xs : List α) :
    Appends (xs.forM each) fun ending => .concat (xs.map (write' ending)) := by
  induction xs with
  | nil => exact appends_nothing
  | cons x xs ih => exact (h x).andThen ih

/-- Behind the first value, something stands before each. -/
theorem appends_zipIdx {sep : LineEnding → String}
    (hbetween : between.Appends fun ending => .write (sep ending))
    (h : ∀ x, (each x).Appends fun ending => write' ending x) (xs : List α) (k : Nat) :
    Appends ((xs.zipIdx (k + 1)).forM fun (x, i) => do
        if 0 < i then between
        each x)
      fun ending => .concat ((xs.map (write' ending)).map (.write (sep ending) ++ ·)) := by
  induction xs generalizing k with
  | nil => exact appends_nothing
  | cons x xs ih => exact (hbetween.andThen (h x)).andThen (ih (k + 1))

/-- **Values in a row append what they are written as, joined by what stands between.** -/
theorem appends_separated {sep : LineEnding → String}
    (hbetween : between.Appends fun ending => .write (sep ending))
    (h : ∀ x, (each x).Appends fun ending => write' ending x) (xs : List α) :
    (separated between each xs).Appends fun ending =>
      .join (sep ending) (xs.map (write' ending)) := by
  cases xs with
  | nil => exact appends_nothing
  | cons x xs =>
    have hcons := (h x).andThen (appends_zipIdx hbetween h xs 0)
    simp only [List.map_cons, Output.join_cons]
    exact hcons

end Lists

/-! ## The parts of a scene -/

theorem appends_number (x : Float) : (number x).Appends fun _ => writeNumber x := by
  rw [number, writeNumber]
  cases finite? x with
  | ok y => exact appends_keyword _
  | error _ => exact appends_throw _

theorem appends_name (s : String) : (name s).Appends fun _ => writeName s := by
  rw [name, writeName]
  split
  case isTrue => exact appends_nothing
  case isFalse =>
    cases nameDefect? s with
    | none => exact appends_space.andThen (appends_keyword s)
    | some why => exact appends_throw _

theorem appends_point (v : Point Float) :
    (point v).Appends fun ending => Textual.write ending v := by
  have h := (appends_number v.x).andThen (appends_space.andThen (appends_number v.y))
  simpa only [point, Textual.write, Output.append_assoc] using h

theorem appends_transform (t : Transform Float) :
    (transform t).Appends fun ending => Textual.write ending t := by
  simp only [transform_eq, write_transform]
  exact (appends_keyword _).andThen
    (appends_forM (fun x => appends_space.andThen (appends_number x)) _)

theorem appends_trailing (ts : List (Transform Float)) :
    (trailing ts).Appends fun ending => writeTrailing ending ts :=
  appends_forM (fun t => appends_lineEnd.andThen (appends_transform t)) ts

theorem appends_drawStyle (d : DrawStyle) :
    (drawStyle d).Appends fun ending => Textual.write ending d := by
  have h := (appends_keyword d.style.keyword).andThen
    (appends_space.andThen (appends_keyword d.color.keyword))
  simpa only [drawStyle, Textual.write, Output.append_assoc] using h

theorem appends_shape (s : Shape Float) :
    (shape s).Appends fun ending => Textual.write ending s := by
  have h := (appends_keyword s.kind.keyword).andThen <| (appends_name s.name).andThen <|
    appends_lineEnd.andThen <| (appends_drawStyle s.drawStyle).andThen
      (appends_trailing s.transforms)
  simpa only [shape_eq, write_shape, Output.append_assoc] using h

theorem appends_shapes (ss : List (Shape Float)) :
    (shapes ss).Appends fun ending => Textual.write ending ss :=
  appends_separated appends_blankLine appends_shape ss

theorem appends_group (g : Group Float) :
    (group g).Appends fun ending => Textual.write ending g := by
  by_cases hnone : g.shapes = []
  · simp only [group_of_eq_nil hnone, write_group_of_eq_nil _ hnone]
    exact appends_throw _
  · have h := (appends_keyword "group").andThen <| (appends_name g.name).andThen <|
      (appends_trailing g.transforms).andThen <| appends_blankLine.andThen
        (appends_shapes g.shapes)
    simpa only [group_of_ne_nil hnone, write_group _ hnone, Output.append_assoc] using h

end Printing

open Printing

/-- The procedure that prints a value. -/
def Part.printing : (p : Part) → p.Value → Printing
  | point, v => Printing.point v
  | points, vs => Printing.points vs
  | transform, t => Printing.transform t
  | transforms, ts => Printing.transforms ts
  | drawStyle, d => Printing.drawStyle d
  | shape, s => Printing.shape s
  | shapes, ss => Printing.shapes ss
  | group, g => Printing.group g
  | document, d => Printing.document d

/-- **The procedure for a value appends what the value is written as.** -/
theorem appends_printing (p : Part) (v : p.Value) :
    (p.printing v).Appends fun ending => Textual.write ending v := by
  cases p with
  | point => exact appends_point v
  | points => exact appends_separated appends_lineEnd appends_point v
  | transform => exact appends_transform v
  | transforms => exact appends_separated appends_lineEnd appends_transform v
  | drawStyle => exact appends_drawStyle v
  | shape => exact appends_shape v
  | shapes => exact appends_shapes v
  | group => exact appends_group v
  | document => exact appends_separated appends_blankLine appends_group v.groups

/-- **Printing step by step is printing at once.** -/
theorem run_printing (p : Part) (v : p.Value) (printer : Printer) :
    printer.run (p.printing v) = printer.print v :=
  appends_printing p v printer

end SceneText
