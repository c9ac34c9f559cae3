import SceneText.Proofs.Format.LineFeeds
import SceneText.Proofs.Format.Stuck

/-!
# Proofs/Format/InRange — every error has a place in its text

A failed match names a place between two characters of the text and a rule that could stand there
(`Rule.Gathers.expected_ne_nil`).  A reader that refuses a node, be it one that it was not made for,
finds fault inside the node's stretch (`offset_of_read_eq_error`).  So an error can always be shown,
in whatever text it is shown (`errors_in_range`).
-/

namespace SceneText

open Pattern

variable {s : List Char} {far : Furthest} {n : Node} {e : Finding} {r : Rule}

/-! ## Failed matches -/

theorem Rule.nodes_eq_error_iff :
    r.nodes s = .error far ↔ r.pattern.parse s = none ∧ far = r.pattern.search s (.start s) := by
  rw [nodes]
  cases r.pattern.parse s with
  | none => simp [eq_comm]
  | some m => simp

/-- **A failed match stands at a place in the text**, told by the characters before it. -/
theorem exists_offset_of_nodes_eq_error (h : r.nodes s = .error far) :
    ∃ v, s = v ++ far.rest ∧ far.offset s = byteLength v := by
  obtain ⟨-, rfl⟩ := Rule.nodes_eq_error_iff.1 h
  obtain ⟨v, hv⟩ := (tells_search r.pattern s).suffix
  exact ⟨v, hv.symm, Furthest.offset_eq hv.symm⟩

/-- **A rule that gathers a node fails for a rule**: its own or one that it needs. -/
theorem Rule.Gathers.expected_ne_nil (hr : r.Gathers) (h : r.nodes s = .error far) :
    far.expected ≠ [] := by
  obtain ⟨hnone, rfl⟩ := Rule.nodes_eq_error_iff.1 h
  obtain ⟨body, hbody⟩ := hr
  have hnoted : ∃ n, n ∈ r.pattern.notes s := by
    rw [hbody] at hnone ⊢
    exact exists_mem_notes_rule (parse_rule_eq_none_iff.1 hnone)
  obtain ⟨n, hn⟩ := hnoted
  obtain ⟨r', hr'⟩ := (tells_search r.pattern s).exists_mem hn (suffix_of_mem_notes hn)
  have hrules := ((tells_search r.pattern s).mem_rules_iff r').2 hr'
  exact List.ne_nil_of_mem (List.mem_filter.2 ⟨r'.mem_all, by simpa using hrules⟩)

/-- Where a rule is expected, or the end of the text, the expectation has words of its own. -/
theorem Finding.ofFurthest_ne (h : far.expected ≠ []) (r : Rule) :
    (ofFurthest s far).fault ≠ .unexpected r (.oneOf [] false) := by
  simp only [ofFurthest]
  split
  · rintro ⟨⟩
  · split
    · rintro ⟨⟩
    · intro heq
      obtain ⟨-, hrules, hend⟩ : _ ∧ far.expected.filter (· ≠ .endOfText) = [] ∧
          .endOfText ∉ far.expected := by simpa [unexpected] using heq
      obtain ⟨r', hr'⟩ := List.exists_mem_of_ne_nil _ h
      obtain rfl : r' = .endOfText := by simpa using List.filter_eq_nil_iff.1 hrules r' hr'
      exact hend hr'

/-! ## Readers -/

theorem offsetOf?_le {word : List Char} {k : Nat} (h : offsetOf? word s = some k) :
    k ≤ byteLength s := by
  induction s generalizing k with
  | nil =>
    rw [offsetOf?] at h
    split at h
    · cases h
      exact le_rfl
    · cases h
  | cons c s ih =>
    rw [offsetOf?] at h
    split at h
    · cases h
      exact Nat.zero_le _
    · obtain ⟨k, hk, rfl⟩ := Option.map_eq_some_iff.1 h
      exact Nat.add_le_add_left (ih hk) _

/-- **Nodes in a stretch correspond to themselves**, and findings that show them lie in it. -/
theorem corresponds_stretch (start stop : Nat) :
    Corresponds (fun n n' => n' = n ∧ start ≤ n.start ∧ n.stop ≤ stop) fun e _ =>
      start ≤ e.span.offset ∧ e.span.offset ≤ stop where
  rule := by
    rintro n _ ⟨rfl, -⟩
    rfl
  children := by
    rintro n _ ⟨rfl, hstart, hstop⟩
    refine List.forall₂_same.2 fun c hc => ?_
    obtain ⟨hstart', hstop'⟩ := Forest.stretch_of_mem_nodes hc
    exact ⟨rfl, hstart.trans hstart', hstop'.trans hstop⟩
  text := by
    rintro n _ ⟨rfl, -⟩ -
    rfl
  start := by
    rintro n _ fault length ⟨-, hstart, hstop⟩
    exact ⟨hstart, (Nat.le_add_right _ _).trans hstop⟩
  keyword := by
    rintro n _ name ⟨-, hstart, hstop⟩
    have hle : (offsetOf? "group".toList n.text).getD 0 ≤ byteLength n.text := by
      cases h : offsetOf? "group".toList n.text with
      | none => exact Nat.zero_le _
      | some k => exact offsetOf?_le h
    rw [Node.stop] at hstop
    simp only [Finding.emptyGroup]
    omega

theorem Alike.of_eq_error {α : Type} {R : Finding → Finding → Prop} {x : Except Finding α}
    (h : Alike R x x) (he : x = .error e) : R e e := by
  subst he
  cases h with
  | error h => exact h

/-- **A reader finds fault inside the node** that it refuses, whatever the node is. -/
theorem offset_of_read_eq_error (p : Part)
    (h : (Textual.read n : Except Finding p.Value) = .error e) :
    n.start ≤ e.span.offset ∧ e.span.offset ≤ n.stop :=
  (Structural.read_alike (corresponds_stretch n.start n.stop) ⟨rfl, le_rfl, le_rfl⟩).of_eq_error h

theorem offset_of_readForm_eq_error {form : TransformForm} (h : form.read n = .error e) :
    n.start ≤ e.span.offset ∧ e.span.offset ≤ n.stop :=
  ((corresponds_stretch n.start n.stop).readForm_alike form ⟨rfl, le_rfl, le_rfl⟩).of_eq_error h

/-! ## Errors in a source -/

/-- **A value, or an error that can be shown**: its label begins where the node does or behind, but
inside the source, and ends inside the source. -/
def Shown {α : Type} (source : Source) (n : Node) (x : Except ParseError α) : Prop :=
  (∃ v, x = .ok v) ∨ ∃ e : ParseError, x = .error e ∧
    (∃ place, n.start ≤ place ∧ place ≤ n.stop ∧
      e.span.offset = min place (byteLength source.text.toList)) ∧
    e.span.offset ≤ byteLength source.text.toList ∧
    e.span.offset + e.span.length ≤ byteLength source.text.toList

theorem shown_blame {α : Type} {x : Except Finding α} (source : Source)
    (hx : ∀ e, x = .error e → n.start ≤ e.span.offset ∧ e.span.offset ≤ n.stop) :
    Shown source n (x.mapError source.blame) := by
  cases x with
  | ok v => exact .inl ⟨v, rfl⟩
  | error e =>
    obtain ⟨hstart, hstop⟩ := hx e rfl
    exact .inr ⟨_, rfl, ⟨e.span.offset, hstart, hstop, rfl⟩, Nat.min_le_right _ _,
      source.clamp_le e.span⟩

/-- **Errors are made from places that exist.**  A text that the rule of a part does not match is
blamed at a place between two of its characters, for want of a rule or of its end.  Any node is read
as any part or form of transform to a value, or to an error whose label lies inside the source that
it is shown in, be that another than the node's own. -/
theorem errors_in_range (p : Part) :
    (∀ s far, p.rule.nodes s = .error far →
      (∃ v, s = v ++ far.rest ∧ far.offset s = byteLength v) ∧ far.offset s ≤ byteLength s ∧
      far.expected ≠ [] ∧
      ∀ r, (Finding.ofFurthest s far).fault ≠ .unexpected r (.oneOf [] false)) ∧
    (∀ (source : Source) (n : Node), Shown source n (parseNode p.Value source n)) ∧
    ∀ (form : TransformForm) (source : Source) (n : Node),
      Shown source n ((form.read n).mapError source.blame) := by
  refine ⟨fun s far h => ?_, fun source n => ?_, fun form source n => ?_⟩
  · have hexpected := p.gathers_rule.expected_ne_nil h
    exact ⟨exists_offset_of_nodes_eq_error h, Nat.sub_le _ _, hexpected,
      Finding.ofFurthest_ne hexpected⟩
  · exact shown_blame source fun e => offset_of_read_eq_error p
  · exact shown_blame source fun e => offset_of_readForm_eq_error

theorem errors_in_range_point :
    let far : Furthest := ⟨['é'], [.number]⟩
    let name : Node := ⟨.name, 7, .text ['é'] .nil⟩
    Rule.point.nodes " é".toList = .error far ∧
      (∃ v, " é".toList = v ++ far.rest ∧ far.offset " é".toList = byteLength v) ∧
      Shown ⟨"scene", "é"⟩ name (parseNode (Point Float) ⟨"scene", "é"⟩ name) := by
  intro far name
  have h : Rule.point.nodes " é".toList = .error far := by decide +kernel
  obtain ⟨hfailed, hread, -⟩ := errors_in_range .point
  exact ⟨h, (hfailed _ far h).1, hread ⟨"scene", "é"⟩ name⟩

end SceneText
