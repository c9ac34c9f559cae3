import SceneText.Proofs.Format.Defects
import SceneText.Proofs.Format.Printing

/-!
# Proofs/Format/Mended — what printing leaves behind when it fails

A value is **mended** by putting others in place of its numbers that are not finite, its names that
cannot stand behind keywords, and its empty lists of shapes (`Part.Mended`).  An output is **cut**
from another if it is all of it, or ends in an error behind a first part of its text.  What is
written of a value is cut from what is written of the mended one, part after part, so that printing
that fails leaves behind the beginning of every text it could have led to (`print_appends`).
-/

namespace SceneText

/-! ## Mending a value -/

/-- A finite number stays. -/
def MendedNumber (x x' : Float) : Prop := x.isFinite → x' = x

/-- A name that can stand behind a keyword stays. -/
def MendedName (name name' : String) : Prop := PrintableName name → name' = name

/-- The numbers may be mended. -/
def Point.Mended (v v' : Point Float) : Prop := MendedNumber v.x v'.x ∧ MendedNumber v.y v'.y

/-- The numbers may be mended, and the form stays. -/
def Transform.Mended (t t' : Transform Float) : Prop :=
  t'.form = t.form ∧ List.Forall₂ MendedNumber t.operands t'.operands

/-- The name and the transforms may be mended; kind and style stay. -/
def Shape.Mended (s s' : Shape Float) : Prop :=
  s'.kind = s.kind ∧ s'.drawStyle = s.drawStyle ∧ MendedName s.name s'.name ∧
    List.Forall₂ Transform.Mended s.transforms s'.transforms

/-- Each shape may be mended.  In place of no shapes may stand any. -/
def ShapesMended (ss ss' : List (Shape Float)) : Prop := ss ≠ [] → List.Forall₂ Shape.Mended ss ss'

/-- The name, the transforms and the shapes may be mended. -/
def Group.Mended (g g' : Group Float) : Prop :=
  MendedName g.name g'.name ∧ List.Forall₂ Transform.Mended g.transforms g'.transforms ∧
    ShapesMended g.shapes g'.shapes

/-- **A value is another one mended**: only its numbers that are not finite, its names that cannot be
printed and its empty lists of shapes are replaced. -/
def Part.Mended : (p : Part) → p.Value → p.Value → Prop
  | point, v, v' => v.Mended v'
  | points, vs, vs' => List.Forall₂ Point.Mended vs vs'
  | transform, t, t' => t.Mended t'
  | transforms, ts, ts' => List.Forall₂ Transform.Mended ts ts'
  | drawStyle, d, d' => d' = d
  | shape, s, s' => s.Mended s'
  | shapes, ss, ss' => ShapesMended ss ss'
  | group, g, g' => g.Mended g'
  | document, d, d' => List.Forall₂ Group.Mended d.groups d'.groups

/-! ## Every value can be mended -/

theorem exists_mendedNumber (x : Float) : ∃ x', MendedNumber x x' ∧ x'.isFinite := by
  by_cases hx : x.isFinite
  · exact ⟨x, fun _ => rfl, hx⟩
  · exact ⟨0, fun h => absurd h hx, by decide +kernel⟩

theorem printableName_empty : PrintableName "" := by simp [PrintableName]

theorem exists_mendedName (name : String) : ∃ name', MendedName name name' ∧ PrintableName name' := by
  by_cases hname : PrintableName name
  · exact ⟨name, fun _ => rfl, hname⟩
  · exact ⟨"", fun h => absurd h hname, printableName_empty⟩

/-- What can be done to each member can be done to a list. -/
theorem exists_forall₂ {α : Type} {R : α → α → Prop} {P : α → Prop} (h : ∀ a, ∃ a', R a a' ∧ P a')
    (as : List α) : ∃ as', List.Forall₂ R as as' ∧ ∀ a' ∈ as', P a' := by
  choose f hf using h
  exact ⟨as.map f, List.forall₂_map_right_iff.2 (List.forall₂_same.2 fun a _ => (hf a).1),
    List.forall_mem_map.2 fun a _ => (hf a).2⟩

theorem Point.exists_mended (v : Point Float) : ∃ v', v.Mended v' ∧ v'.Printable := by
  obtain ⟨x, hx, hx'⟩ := exists_mendedNumber v.x
  obtain ⟨y, hy, hy'⟩ := exists_mendedNumber v.y
  exact ⟨⟨x, y⟩, ⟨hx, hy⟩, hx', hy'⟩

theorem Transform.exists_mended (t : Transform Float) : ∃ t', t.Mended t' ∧ t'.Printable := by
  cases t with
  | rotate degrees =>
    obtain ⟨x, hx, hx'⟩ := exists_mendedNumber degrees
    exact ⟨.rotate x, ⟨rfl, .cons hx .nil⟩, by simpa [Transform.Printable, operands] using hx'⟩
  | scale x y =>
    obtain ⟨x, hx, hx'⟩ := exists_mendedNumber x
    obtain ⟨y, hy, hy'⟩ := exists_mendedNumber y
    exact ⟨.scale x y, ⟨rfl, .cons hx (.cons hy .nil)⟩, by
      simpa [Transform.Printable, operands] using ⟨hx', hy'⟩⟩
  | translate x y =>
    obtain ⟨x, hx, hx'⟩ := exists_mendedNumber x
    obtain ⟨y, hy, hy'⟩ := exists_mendedNumber y
    exact ⟨.translate x y, ⟨rfl, .cons hx (.cons hy .nil)⟩, by
      simpa [Transform.Printable, operands] using ⟨hx', hy'⟩⟩

theorem Shape.exists_mended (s : Shape Float) : ∃ s', s.Mended s' ∧ s'.Printable := by
  obtain ⟨name, hname, hname'⟩ := exists_mendedName s.name
  obtain ⟨ts, hts, hts'⟩ := exists_forall₂ Transform.exists_mended s.transforms
  exact ⟨⟨⟨name, s.drawStyle, ts⟩, s.kind⟩, ⟨rfl, rfl, hname, hts⟩, hname', hts'⟩

theorem Group.exists_mended (g : Group Float) : ∃ g', g.Mended g' ∧ g'.Printable := by
  obtain ⟨name, hname, hname'⟩ := exists_mendedName g.name
  obtain ⟨ts, hts, hts'⟩ := exists_forall₂ Transform.exists_mended g.transforms
  by_cases hnone : g.shapes = []
  · let square : Shape Float := ⟨⟨"", ⟨.filled, .black⟩, []⟩, .unitSquare⟩
    have hsquare : square.Printable := ⟨printableName_empty, List.forall_mem_nil _⟩
    exact ⟨⟨name, ts, [square]⟩, ⟨hname, hts, fun h => absurd hnone h⟩, hname', hts',
      List.forall_mem_singleton.2 hsquare, List.cons_ne_nil _ _⟩
  · obtain ⟨ss, hss, hss'⟩ := exists_forall₂ Shape.exists_mended g.shapes
    refine ⟨⟨name, ts, ss⟩, ⟨hname, hts, fun _ => hss⟩, hname', hts', hss', ?_⟩
    rintro rfl
    exact hnone (List.forall₂_nil_right_iff.1 hss)

/-- **Every value can be mended so that it is printable.** -/
theorem exists_mended (p : Part) (v : p.Value) : ∃ v', p.Mended v v' ∧ p.Printable v' := by
  cases p with
  | point => exact Point.exists_mended v
  | points => exact exists_forall₂ Point.exists_mended v
  | transform => exact Transform.exists_mended v
  | transforms => exact exists_forall₂ Transform.exists_mended v
  | drawStyle => exact ⟨v, rfl, trivial⟩
  | shape => exact Shape.exists_mended v
  | shapes =>
    obtain ⟨ss, hss, hss'⟩ := exists_forall₂ Shape.exists_mended v
    exact ⟨ss, fun _ => hss, hss'⟩
  | group => exact Group.exists_mended v
  | document =>
    obtain ⟨gs, hgs, hgs'⟩ := exists_forall₂ Group.exists_mended v.groups
    exact ⟨⟨gs⟩, hgs, hgs'⟩

/-! ## Outputs cut from others -/

namespace Output

variable {out full a a' b b' : Output}

/-- **An output is cut from another**, where that has no error: it is all of it, or ends in an error
behind a first part of its text. -/
def CutFrom (out full : Output) : Prop :=
  full.error? = none →
    out = full ∨ ∃ error rest, out.error? = some error ∧ full.text = out.text ++ rest

theorem CutFrom.refl (out : Output) : CutFrom out out := fun _ => .inl rfl

theorem cutFrom_fail (error : PrintError) (full : Output) : CutFrom (fail error) full :=
  fun _ => .inr ⟨error, full.text, rfl, String.empty_append.symm⟩

/-- **What is cut from two outputs, one after the other, is cut from both together.** -/
theorem CutFrom.append (ha : CutFrom a a') (hb : CutFrom b b') : CutFrom (a ++ b) (a' ++ b') := by
  intro hfull
  rw [error?_append, Option.or_eq_none_iff] at hfull
  obtain ⟨hfirst, hsecond⟩ := hfull
  rcases ha hfirst with rfl | ⟨error, rest, herror, htext⟩
  · rcases hb hsecond with rfl | ⟨error, rest, herror, htext⟩
    · exact .inl rfl
    · refine .inr ⟨error, rest, ?_, ?_⟩
      · rw [error?_append, hfirst, herror, Option.none_or]
      · rw [append_of_none hfirst, append_of_none hfirst, htext, String.append_assoc]
  · -- the second output is not reached
    refine .inr ⟨error, rest ++ b'.text, ?_, ?_⟩
    · rw [append_of_some herror, herror]
    · rw [append_of_some herror, append_of_none hfirst, htext, String.append_assoc]

/-- Where an output has an error, the one it is cut from goes on. -/
theorem CutFrom.exists_rest (h : CutFrom out full) (hfull : full.error? = none)
    (hout : out.error? ≠ none) : ∃ rest, full.text = out.text ++ rest := by
  rcases h hfull with rfl | ⟨error, rest, -, htext⟩
  · exact absurd hfull hout
  · exact ⟨rest, htext⟩

section Lists

variable {α : Type} {Mended : α → α → Prop} {write' : α → Output} {vs vs' : List α}

/-- What is written of values is cut from what is written of mended ones, value after value. -/
theorem cutFrom_concat_map (h : ∀ v v', Mended v v' → CutFrom (write' v) (write' v'))
    (hvs : List.Forall₂ Mended vs vs') :
    CutFrom (concat (vs.map write')) (concat (vs'.map write')) := by
  induction hvs with
  | nil => exact .refl _
  | cons hv _ ih => exact (h _ _ hv).append ih

theorem cutFrom_join_map (separator : String)
    (h : ∀ v v', Mended v v' → CutFrom (write' v) (write' v')) (hvs : List.Forall₂ Mended vs vs') :
    CutFrom (join separator (vs.map write')) (join separator (vs'.map write')) := by
  cases hvs with
  | nil => exact .refl _
  | cons hv hvs =>
    have hmore := cutFrom_concat_map (fun v v' hv => (CutFrom.refl (write separator)).append
      (h v v' hv)) hvs
    rw [List.map_cons, List.map_cons, join_cons, join_cons, List.map_map, List.map_map]
    exact (h _ _ hv).append hmore

end Lists

end Output

open Output

/-! ## What is written of a mended value -/

theorem cutFrom_writeNumber {x x' : Float} (h : MendedNumber x x') :
    CutFrom (writeNumber x) (writeNumber x') := by
  by_cases hx : x.isFinite
  · rw [h hx]
    exact .refl _
  · rw [writeNumber_of_not_isFinite hx]
    exact cutFrom_fail _ _

theorem cutFrom_writeName {name name' : String} (h : MendedName name name') :
    CutFrom (writeName name) (writeName name') := by
  by_cases hname : PrintableName name
  · rw [h hname]
    exact .refl _
  · obtain ⟨why, hwhy⟩ := Option.ne_none_iff_exists'.1 (mt nameDefect?_eq_none_iff.1 hname)
    rw [writeName_of_nameDefect? hwhy]
    exact cutFrom_fail _ _

variable (ending : LineEnding)

theorem cutFrom_write_point {v v' : Point Float} (h : v.Mended v') :
    CutFrom (Textual.write ending v) (Textual.write ending v') :=
  ((cutFrom_writeNumber h.1).append (.refl _)).append (cutFrom_writeNumber h.2)

theorem cutFrom_write_transform {t t' : Transform Float} (h : t.Mended t') :
    CutFrom (Textual.write ending t) (Textual.write ending t') := by
  rw [write_transform, write_transform, h.1]
  exact (CutFrom.refl _).append (cutFrom_concat_map
    (fun _ _ hx => (CutFrom.refl _).append (cutFrom_writeNumber hx)) h.2)

theorem cutFrom_writeTrailing {ts ts' : List (Transform Float)}
    (h : List.Forall₂ Transform.Mended ts ts') :
    CutFrom (writeTrailing ending ts) (writeTrailing ending ts') :=
  cutFrom_concat_map (fun _ _ ht => (CutFrom.refl _).append (cutFrom_write_transform ending ht)) h

theorem cutFrom_write_shape {s s' : Shape Float} (h : s.Mended s') :
    CutFrom (Textual.write ending s) (Textual.write ending s') := by
  obtain ⟨hkind, hstyle, hname, htransforms⟩ := h
  rw [write_shape, write_shape, hkind, hstyle]
  exact ((((CutFrom.refl _).append (cutFrom_writeName hname)).append (.refl _)).append
    (.refl _)).append (cutFrom_writeTrailing ending htransforms)

theorem cutFrom_write_shapes {ss ss' : List (Shape Float)} (h : List.Forall₂ Shape.Mended ss ss') :
    CutFrom (Textual.write ending ss) (Textual.write ending ss') :=
  cutFrom_join_map _ (fun _ _ hs => cutFrom_write_shape ending hs) h

/-- Of a group without shapes nothing is written, and a mended group begins with that. -/
theorem cutFrom_write_group {g g' : Group Float} (h : g.Mended g') :
    CutFrom (Textual.write ending g) (Textual.write ending g') := by
  obtain ⟨hname, htransforms, hshapes⟩ := h
  by_cases hne : g.shapes = []
  · rw [write_group_of_eq_nil ending hne]
    exact cutFrom_fail _ _
  · have hshapes := hshapes hne
    have hne' : g'.shapes ≠ [] := fun hnil =>
      hne (List.forall₂_nil_right_iff.1 (hnil ▸ hshapes))
    rw [write_group ending hne, write_group ending hne']
    exact ((((CutFrom.refl _).append (cutFrom_writeName hname)).append
      (cutFrom_writeTrailing ending htransforms)).append (.refl _)).append
        (cutFrom_write_shapes ending hshapes)

/-- **What is written of a value up to an error begins what is written of any mended one.** -/
theorem exists_rest_of_mended (p : Part) {v v' : p.Value} (h : p.Mended v v')
    (hv : (Textual.write ending v).error? ≠ none) (hv' : p.Printable v') :
    ∃ rest, (Textual.write ending v').text = (Textual.write ending v).text ++ rest := by
  have hfull : (Textual.write ending v').error? = none :=
    (writes_canonical ending p v').error?_eq_none_iff.2 hv'
  refine CutFrom.exists_rest ?_ hfull hv
  cases p with
  | point => exact cutFrom_write_point ending h
  | points => exact cutFrom_join_map _ (fun _ _ hv => cutFrom_write_point ending hv) h
  | transform => exact cutFrom_write_transform ending h
  | transforms => exact cutFrom_join_map _ (fun _ _ ht => cutFrom_write_transform ending ht) h
  | drawStyle =>
    obtain rfl : v' = v := h
    exact .refl _
  | shape => exact cutFrom_write_shape ending h
  | shapes =>
    refine cutFrom_write_shapes ending (h ?_)
    rintro rfl
    exact hv rfl
  | group => exact cutFrom_write_group ending h
  | document => exact cutFrom_join_map _ (fun _ _ hg => cutFrom_write_group ending hg) h

/-! ## Printing to a buffer -/

/-- **Printing only appends, and printing that fails leaves behind the beginning of a text.**  The
procedure that prints a value, run on any buffer, does what it does on an empty one, behind what the
buffer holds.  If an error stops it, what it has appended is the beginning of the text of every
printable value that mends the one printed, and there is such a value. -/
theorem print_appends (p : Part) (v : p.Value) (printer : Printer) :
    ∃ error? t,
      printer.run (p.printing v) = (error?, ⟨printer.buffer ++ t, printer.lineEnding⟩) ∧
      (Printer.new printer.lineEnding).run (p.printing v) = (error?, ⟨t, printer.lineEnding⟩) ∧
      printer.print v = printer.run (p.printing v) ∧
      printWith printer.lineEnding v = Output.toExcept ⟨t, error?⟩ ∧
      (∃ v', p.Mended v v' ∧ p.Printable v') ∧
      (error? ≠ none → ∀ v', p.Mended v v' → p.Printable v' →
        ∃ rest, printWith printer.lineEnding v' = .ok (t ++ rest)) := by
  refine ⟨(Textual.write printer.lineEnding v).error?, (Textual.write printer.lineEnding v).text,
    run_printing p v printer, ?_, (run_printing p v printer).symm, rfl, exists_mended p v,
    fun herror v' hmended hv' => ?_⟩
  · rw [run_printing, Printer.print, Printer.put, Printer.write, Printer.new, String.empty_append]
  · obtain ⟨rest, hrest⟩ := exists_rest_of_mended printer.lineEnding p hmended herror hv'
    exact ⟨rest, printWith_eq_ok_iff_write.2
      ⟨(writes_canonical _ p v').error?_eq_none_iff.2 hv', hrest⟩⟩

theorem print_appends_leading_blank :
    let square (name : String) : Shape Float := ⟨⟨name, ⟨.filled, .red⟩, []⟩, .unitSquare⟩
    let g : Group Float := ⟨"", [.rotate 45], [square "a", square " b"]⟩
    let g' : Group Float := ⟨"", [.rotate 45], [square "a", square "b"]⟩
    let printer : Printer := ⟨"kept ", .lf⟩
    let t := "group\nr 45.0\n\nunit square a\nfilled red\n\nunit square"
    Part.group.Mended g g' ∧ Part.group.Printable g' ∧
      (printer.run (Part.group.printing g)).1.isSome ∧
      (printer.run (Part.group.printing g)).2.buffer = "kept " ++ t ∧
      ∃ rest, printWith .lf g' = .ok (t ++ rest) := by
  intro square g g' printer t
  have hblank : ¬ PrintableName " b" := fun h => by simpa [isBlank] using h.2
  have hmended : Part.group.Mended g g' := ⟨fun _ => rfl,
    .cons ⟨rfl, .cons (fun _ => rfl) .nil⟩ .nil, fun _ =>
      .cons ⟨rfl, rfl, fun _ => rfl, .nil⟩ (.cons ⟨rfl, rfl, fun h => absurd h hblank, .nil⟩ .nil)⟩
  have hprint : printWith .lf g' = .ok (t ++ " b\nfilled red") :=
    printWith_eq_ok_iff_write.2 ⟨by decide +kernel, by decide +kernel⟩
  have hprintable : Part.group.Printable g' := ((printWith_eq_ok_iff .lf .group).1 hprint).1
  have hsome : (printer.run (Part.group.printing g)).1.isSome := by decide +kernel
  obtain ⟨error?, t', hrun, hnew, -, -, -, hrest⟩ := print_appends .group g printer
  have ht : t' = t := by
    refine (congrArg (·.2.buffer) hnew).symm.trans ?_
    decide +kernel
  rw [hrun] at hsome ⊢
  subst ht
  exact ⟨hmended, hprintable, hsome, rfl,
    hrest (Option.isSome_iff_ne_none.1 hsome) g' hmended hprintable⟩

end SceneText
