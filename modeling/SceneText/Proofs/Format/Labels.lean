import SceneText.Proofs.Format.FirstOffender
import SceneText.Proofs.Format.InRange
import SceneText.Proofs.Format.Marks

/-!
# Proofs/Format/Labels — what the label of an error covers

Every label begins between two characters of the source.  A finding that quotes a word is labelled
with that word, and a group without shapes with its keyword; a finding that quotes nothing is
labelled with one byte of what stands there (`label_of_parse_eq_error`).  Such a byte may be the
first of several that a character takes, and where a number is due a white space that is no blank
leaves no word to quote (`label_splits_character`).
-/

namespace SceneText

open Pattern

variable {s v w z : List Char} {g : Forest} {n : Node} {e : Finding} {far : Furthest}

/-! ## Offenders in any part -/

theorem findsFirst_read_point (hn : n.Matched) (hr : n.rule = .point) :
    FindsFirst (Textual.read n : Except Finding (Point Float)) (OffendsIn [n]) := by
  obtain ⟨s, rest, hmatch⟩ := hn.2
  have htwo := fits_of_matches hmatch
  rw [Node.Fits, hr] at htwo
  have hnumbers : FindsFirst (readNumbers n) (OffendsIn [n]) :=
    findsFirst_mapM_childrenOf hn hr (by decide) (by decide) (by decide)
      fun _ => findsFirst_readNumber
  refine hnumbers.bind_ok fun xs hxs => ?_
  obtain ⟨x, y, rfl⟩ := List.length_eq_two.1 ((length_eq_of_mapM_eq_ok hxs).trans htwo)
  exact ⟨_, rfl⟩

/-- **Every part is read up to its first offender.** -/
theorem findsFirst_read (p : Part) (hn : n.Matched) (hr : n.rule = p.rule) :
    FindsFirst (Textual.read n : Except Finding p.Value) (OffendsIn [n]) := by
  cases p with
  | point => exact findsFirst_read_point hn hr
  | points =>
    exact findsFirst_mapM_childrenOf hn hr (by decide) (by decide) (by decide)
      fun _ => findsFirst_read_point
  | transform => exact findsFirst_read_transform hn hr
  | transforms =>
    exact findsFirst_mapM_childrenOf hn hr (by decide) (by decide) (by decide)
      fun _ => findsFirst_read_transform
  | drawStyle => exact findsFirst_read_drawStyle hn hr
  | shape => exact findsFirst_read_shape hn hr
  | shapes => exact findsFirst_read_shapes hn hr
  | group => exact findsFirst_read_group hn hr
  | document => exact findsFirst_read_document hn hr

/-- **What is wrong with a text is one of three things**: its rule does not match, or ends before
the text does, or something in the match offends. -/
theorem readText_eq_error_cases (p : Part) (h : readText p.Value s = .error e) :
    (∃ far, p.rule.nodes s = .error far ∧ e = .ofFurthest s far) ∨
      (∃ v z, s = v ++ z ∧ e = .unexpected p.rule .endOfText (byteLength v)) ∨
      ∃ (g : Forest) (n : Node), p.rule.Matches s g [] ∧ n.Within ⟨p.rule, 0, g⟩ ∧ Offence n e := by
  have hread : readText p.Value s = wholeNode p.rule s >>= Textual.read := rfl
  rcases p.gathers_rule.matches_or s with hnone | ⟨g, rest, hg⟩
  · rw [hread, wholeNode_of_parse_eq_none hnone] at h
    cases h
    exact .inl ⟨_, Rule.nodes_eq_error_iff.2 ⟨hnone, rfl⟩, rfl⟩
  · have htext : s = g.toList ++ rest := hg.toList_append.symm
    rw [hread, wholeNode_of_matches hg] at h
    split at h
    case isTrue hnil =>
      subst hnil
      obtain ⟨n, hn, -⟩ :=
        (findsFirst_read p (n := ⟨p.rule, 0, g⟩) ⟨p.gathers_rule, s, [], hg⟩ rfl).of_error e h
      obtain ⟨he, hwithin⟩ := offendsIn_singleton.1 hn
      exact .inr (.inr ⟨g, n, hg, hwithin, he⟩)
    case isFalse =>
      cases h
      exact .inr (.inl ⟨_, _, htext, rfl⟩)

/-! ## Labels -/

/-- A label of some length shows what is quoted, which stands at the front of `z`. -/
def Shows (z : List Char) (length : Nat) (quoted : String) : Prop :=
  quoted ≠ "" ∧ ∃ after, z = quoted.toList ++ after ∧ length = byteLength quoted.toList

/-- **What the label of a fault covers**, where `z` is the source from the label on: the word that
the message quotes, or the keyword of a group, or else one byte, if there is one.  Of a malformed
number this is said where no white space stands in its place. -/
def Fault.Covers (z : List Char) (length : Nat) : Fault → Prop
  | .unexpected _ _ => length = min 1 (byteLength z)
  | .missingSeparator => length = min 1 (byteLength z)
  | .malformedNumber quoted => Stops whiteSpace.has z → Shows z length quoted
  | .emptyGroup _ => Shows z length "group"
  | .unknownStyle quoted => Shows z length quoted
  | .unknownColor quoted => Shows z length quoted

/-- **A finding is placed in a source**: its label begins between two characters, and covers what it
is to cover. -/
def Finding.Placed (e : Finding) (source : Source) : Prop :=
  ∃ v z, source.text.toList = v ++ z ∧ e.span.offset = byteLength v ∧
    e.fault.Covers z (source.clamp e.span).length

/-- A word is labelled whole. -/
theorem shows_clamp {source : Source} (h : source.text.toList = v ++ (w ++ z)) (hw : w ≠ []) :
    Shows (w ++ z) (source.clamp ⟨byteLength v, byteLength w⟩).length (.ofList w) := by
  rw [Source.clamp_of_append h le_rfl]
  refine ⟨fun hnil => hw (by simpa using congrArg String.toList hnil), z, ?_, ?_⟩ <;>
    rw [String.toList_ofList]

/-- What a failed match tells is labelled where it stands. -/
theorem placed_ofFurthest {source : Source} (h : source.text.toList = v ++ far.rest) :
    (Finding.ofFurthest source.text.toList far).Placed source := by
  refine ⟨v, far.rest, h, (Finding.offset_ofFurthest _ far).trans (Furthest.offset_eq h), ?_⟩
  simp only [Finding.ofFurthest, Furthest.offset_eq h]
  split
  case isTrue hnumber =>
    intro hstops
    obtain ⟨c, rest, hrest⟩ : ∃ c rest, far.rest = c :: rest := by
      refine List.exists_cons_of_ne_nil fun hnil => ?_
      simp [hnil] at hnumber
    have hword : far.rest.takeWhile (fun c => !whiteSpace.has c) ≠ [] := by
      rw [hrest, stops_cons] at hstops
      simp [hrest, hstops]
    have hsplit := List.takeWhile_append_dropWhile (p := fun c => !whiteSpace.has c) (l := far.rest)
    have hshows := shows_clamp (h.trans (congrArg _ hsplit.symm)) hword
    rwa [hsplit, ← max_eq_left (one_le_byteLength hword)] at hshows
  case isFalse =>
    have hpoint := congrArg Span.length (Source.clamp_place h 1)
    split <;> exact hpoint

/-- **What offends is labelled where it stands**, and as a whole. -/
theorem Offence.placed {source : Source} (he : Offence n e) (hn : n.Matched)
    (h : source.text.toList = v ++ (n.text ++ z)) (hstart : n.start = byteLength v) :
    e.Placed source := by
  have hne : n.text ≠ [] := by
    intro hnil
    have hlt := hn.start_lt_stop he
    rw [Node.stop, hnil, byteLength_nil] at hlt
    exact absurd hlt (lt_irrefl _)
  have hword : Shows (n.text ++ z) (source.clamp ⟨n.start, byteLength n.text⟩).length
      (.ofList n.text) := hstart ▸ shows_clamp h hne
  cases he with
  | number => exact ⟨v, n.text ++ z, h, hstart, fun _ => hword⟩
  | style => exact ⟨v, n.text ++ z, h, hstart, hword⟩
  | color => exact ⟨v, n.text ++ z, h, hstart, hword⟩
  | @group space more _ _ _ htext _ _ =>
    have hplace : n.start + byteLength space = byteLength (v ++ space) := by
      rw [hstart, byteLength_append]
    have h' : source.text.toList = (v ++ space) ++ ("group".toList ++ (more ++ z)) := by
      rw [h, htext]
      simp only [List.append_assoc]
    refine ⟨v ++ space, _, h', hplace, ?_⟩
    have hkeyword := shows_clamp h' (by decide)
    rwa [← hplace] at hkeyword

/-- **Whatever is wrong with a text is labelled where it stands.** -/
theorem placed_of_readText_eq_error (p : Part) {source : Source}
    (h : readText p.Value source.text.toList = .error e) : e.Placed source := by
  rcases readText_eq_error_cases p h with ⟨far, hfar, rfl⟩ | ⟨v, z, hv, rfl⟩ | ⟨g, n, hg, hn, he⟩
  · obtain ⟨v, hv, -⟩ := exists_offset_of_nodes_eq_error hfar
    exact placed_ofFurthest hv
  · exact ⟨v, z, hv, rfl, congrArg Span.length (Source.clamp_place hv 1)⟩
  · have hroot : (⟨p.rule, 0, g⟩ : Node) ∈ (Forest.node p.rule g .nil).nodes 0 :=
      List.mem_singleton_self _
    obtain ⟨a, z, htext, hstart, -⟩ := hn.exists_marks hroot []
    have hmatched : n.Matched := Node.Matched.within ⟨p.gathers_rule, _, _, hg⟩ hn
    exact he.placed hmatched ((toList_parse hg).symm.trans htext) (hstart.trans (Nat.zero_add _))

/-- **Labels cover what messages quote.**  Every error of a source has a label that begins between
two characters and lies inside the source.  If its message quotes a word, that is not empty, and is
what the label covers. -/
theorem label_of_parse_eq_error (p : Part) {source : Source} {e : ParseError}
    (h : parse p.Value source = .error e) :
    e.source = source ∧ ∃ v z, source.text.toList = v ++ z ∧ e.span.offset = byteLength v ∧
      e.span.offset + e.span.length ≤ byteLength source.text.toList ∧
      e.fault.Covers z e.span.length := by
  rw [parse] at h
  cases hread : readText p.Value source.text.toList with
  | ok a =>
    rw [hread] at h
    cases h
  | error e =>
    rw [hread] at h
    cases h
    obtain ⟨v, z, hv, hoffset, hcovers⟩ := placed_of_readText_eq_error p hread
    refine ⟨rfl, v, z, hv, ?_, source.clamp_le e.span, hcovers⟩
    change min e.span.offset _ = _
    rw [hoffset, hv, byteLength_append]
    exact min_eq_left (Nat.le_add_right _ _)

theorem label_of_parse_eq_error_color :
    let source : Source := ⟨"scene", "filled mauve"⟩
    let e : ParseError := ⟨⟨.unknownColor "mauve", ⟨7, 5⟩⟩, source⟩
    parse DrawStyle source = .error e ∧ e.source = source ∧
      ∃ v z, source.text.toList = v ++ z ∧ e.span.offset = byteLength v ∧
        e.span.offset + e.span.length ≤ byteLength source.text.toList ∧
        e.fault.Covers z e.span.length := by
  intro source e
  have h : parse DrawStyle source = .error e := by decide +kernel
  exact ⟨h, label_of_parse_eq_error .drawStyle h⟩

/-- **A label may end inside a character**, and a malformed number be no word: where nothing is
quoted the label is one byte of a letter that takes two, and a white space that is no blank leaves
nothing of the number that is due. -/
theorem label_splits_character :
    (∃ e : ParseError, parse (Document Float) ⟨"scene", "é"⟩ = .error e ∧
      ¬ ∃ v w z, "é".toList = v ++ (w ++ z) ∧ e.span.offset = byteLength v ∧
        e.span.length = byteLength w) ∧
    ∃ e : ParseError, parse (Document Float) ⟨"scene", "group\nr \u00a05"⟩ = .error e ∧
      e.fault = .malformedNumber "" ∧ e.span.length = 1 := by
  constructor
  · refine ⟨⟨⟨.unexpected .document (.rule .document), ⟨0, 1⟩⟩, ⟨"scene", "é"⟩⟩,
      by decide +kernel, ?_⟩
    rintro ⟨v, w, z, htext, -, hlength⟩
    have hw : w <:+: ['é'] := ⟨v, z, (List.append_assoc _ _ _).trans htext.symm⟩
    -- the infixes of a single letter are none and the letter, of no byte or of two
    rcases (List.infix_singleton_iff _ _).1 hw with rfl | rfl <;> exact absurd hlength (by decide)
  · exact ⟨⟨⟨.malformedNumber "", ⟨8, 1⟩⟩, ⟨"scene", "group\nr \u00a05"⟩⟩, by decide +kernel,
      rfl, rfl⟩

end SceneText
