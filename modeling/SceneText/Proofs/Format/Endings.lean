import SceneText.Proofs.Format.Defects

/-!
# Proofs/Format/Endings — what the choice of a line end changes

A value is printed as its lines, joined by the line end that is chosen, and no line holds a line
break.  So the two texts of a value differ in their line ends only: the one is the other with a
carriage return before every line feed (`withReturns_joinLines`), and neither has a line break that
does not end a line.  What keeps a value from being printed does not depend on the line end either
(`printWith_crlf`).
-/

namespace SceneText

variable {l s t : List Char} {ls : List (List Char)}

/-- The text with a carriage return before each line feed. -/
def withReturns (s : List Char) : List Char :=
  s.flatMap fun c => if c = '\n' then ['\r', '\n'] else [c]

/-- Every line break of a text is one of a carriage return and a line feed behind it. -/
def PairedBreaks : List Char → Prop
  | '\r' :: '\n' :: s => PairedBreaks s
  | c :: s => isLineBreak c = false ∧ PairedBreaks s
  | [] => True

theorem withReturns_append (s t : List Char) :
    withReturns (s ++ t) = withReturns s ++ withReturns t := List.flatMap_append

theorem OneLine.withReturns_eq (h : OneLine l) : withReturns l = l := by
  induction l with
  | nil => rfl
  | cons c l ih =>
    obtain ⟨hc, hl⟩ := List.forall_mem_cons.1 h
    have hne : c ≠ '\n' := by
      rintro rfl
      cases hc
    rw [withReturns, List.flatMap_cons, if_neg hne, ← withReturns, ih hl, List.singleton_append]

/-- **Lines joined by line feeds are joined by pairs**, once each line feed has a carriage return. -/
theorem withReturns_joinLines (h : ∀ l ∈ ls, OneLine l) :
    withReturns (joinLines ['\n'] ls) = joinLines ['\r', '\n'] ls := by
  induction ls with
  | nil => rfl
  | cons l ls ih =>
    obtain ⟨hl, hls⟩ := List.forall_mem_cons.1 h
    cases ls with
    | nil => simpa [joinLines] using hl.withReturns_eq
    | cons l' ls =>
      have hcons (brk : List Char) :
          joinLines brk (l :: l' :: ls) = l ++ (brk ++ joinLines brk (l' :: ls)) := by
        rw [joinLines, List.intercalate_cons_cons, List.append_assoc, joinLines]
      rw [hcons, hcons, withReturns_append, hl.withReturns_eq, ← ih hls]
      rfl

/-- Lines joined by line feeds hold no carriage return. -/
theorem return_notMem_joinLines (h : ∀ l ∈ ls, OneLine l) : '\r' ∉ joinLines ['\n'] ls := by
  have hall : ∀ c ∈ joinLines ['\n'] ls, c ≠ '\r' := by
    refine forall_mem_intercalate (by simp) fun l hl c hc => ?_
    rintro rfl
    cases h l hl _ hc
  exact fun hmem => hall _ hmem rfl

/-- **Without carriage returns of its own, a text gets all of them before line feeds.** -/
theorem pairedBreaks_withReturns (h : '\r' ∉ s) : PairedBreaks (withReturns s) := by
  induction s with
  | nil => trivial
  | cons c s ih =>
    obtain ⟨hc, hs⟩ := not_or.1 (mt List.mem_cons.2 h)
    by_cases hfeed : c = '\n'
    · subst hfeed
      exact ih hs
    · have hline : isLineBreak c = false := by simp [isLineBreak, hfeed, Ne.symm hc]
      have hcons : withReturns (c :: s) = c :: withReturns s := by
        simp [withReturns, hfeed]
      rw [hcons, PairedBreaks]
      · exact ⟨hline, ih hs⟩
      · rintro t rfl
        exact absurd rfl hc

/-- **The line end that is chosen changes nothing but the line ends.**  With either one printing a
value fails, with the same error, or succeeds with both; then the one text is the other with a
carriage return before every line feed, and there are no line breaks in them besides. -/
theorem printWith_crlf (p : Part) (v : p.Value) :
    (∃ e, printWith .lf v = .error e ∧ printWith .crlf v = .error e) ∨
      ∃ text text', printWith .lf v = .ok text ∧ printWith .crlf v = .ok text' ∧
        text'.toList = withReturns text.toList ∧ '\r' ∉ text.toList ∧
          PairedBreaks text'.toList := by
  cases hdefect : (p.defects v).head? with
  | some e => exact .inl ⟨e, (printWith_eq_error_iff _ p).2 hdefect,
      (printWith_eq_error_iff _ p).2 hdefect⟩
  | none =>
    have hv : p.Printable v := (defects_eq_nil_iff p).1 (List.head?_eq_none_iff.1 hdefect)
    have hlines := oneLine_of_mem_canonical p hv
    have htext (ending : LineEnding) : ∃ text, printWith ending v = .ok text ∧
        text.toList = joinLines ending.text.toList (p.canonical v) :=
      ⟨_, (printWith_eq_ok_iff ending p).2 ⟨hv, String.toList_ofList⟩, String.toList_ofList⟩
    obtain ⟨text, hprint, hlf⟩ := htext .lf
    obtain ⟨text', hprint', hcrlf⟩ := htext .crlf
    have hreturns : text'.toList = withReturns text.toList := by
      rw [hlf, hcrlf]
      exact (withReturns_joinLines hlines).symm
    have hnone : '\r' ∉ text.toList := hlf ▸ return_notMem_joinLines hlines
    exact .inr ⟨text, text', hprint, hprint', hreturns, hnone,
      hreturns ▸ pairedBreaks_withReturns hnone⟩

end SceneText
