import CMakeSense.Proofs.Query.Tip
import CMakeSense.Proofs.Token.Nesting
import CMakeSense.Proofs.Token.Resuming

/-! The spans of a call tip. They are spans of tokens, so each is a stretch of one line
(`Walk.liesIn_span`) and they end before the next one starts (`Walk.pairwise_endsBy`). Which tokens
they are is kept along the walk (`CallTip.Trail.Spanned`): the last word outside of argument lists,
the parenthesis that opens the list behind it, and of what follows up to the position, the blanks
between arguments and the parenthesis that closes the list. -/

namespace CMakeSense

namespace Span

/-- The span is a stretch of one line of a script, and not an empty one. -/
structure LiesIn (span : Span) (lines : List Text) : Prop where
  oneLine : span.endLine = span.startLine
  nonempty : span.startColumn < span.endColumn
  within : ∃ text, lines[span.startLine]? = some text ∧ span.endColumn ≤ text.length

/-- The span ends at or before the start of another one. -/
def EndsBy (span other : Span) : Prop :=
  span.endLine < other.startLine ∨
    span.endLine = other.startLine ∧ span.endColumn ≤ other.startColumn

/-- The bytes of a stretch of one line. -/
def bytes (span : Span) (lines : List Text) : Text :=
  ((lines.getD span.startLine []).drop span.startColumn).take (span.endColumn - span.startColumn)

end Span

namespace Walk

variable {lines : List Text} {step : Step}

/-- The span of a token lies in its line and has the bytes of the token. -/
theorem liesIn_span (h : step ∈ steps lines) :
    step.span.LiesIn lines ∧ step.span.bytes lines = step.tokenText := by
  obtain ⟨front, rest, split⟩ := List.append_of_mem h
  obtain ⟨_, ⟨_, c, t, bytes, lexeme⟩, _⟩ := run_of_steps_eq split
  obtain ⟨k, text, hline, htext, hrest, _⟩ := eq_stepsAt_of_split split
  rw [Nat.zero_add] at hline
  rw [← hline] at htext
  have length : step.token.stop - step.token.start = (Lexeme.next step.before c t).length :=
    congrArg Lexeme.length lexeme
  have positive := Lexeme.next_length_pos step.before c t
  have short := Lexeme.next_length_le step.before c t
  rw [← bytes, hrest, List.length_drop] at short
  refine ⟨⟨rfl, ?_, text, htext, ?_⟩, ?_⟩
  · show step.token.start < step.token.stop
    omega
  · show step.token.stop ≤ text.length
    omega
  · have line : lines.getD step.line [] = text := by rw [List.getD_eq_getElem?_getD, htext]; rfl
    rw [Step.tokenText, hrest, ← line]
    rfl

/-- The token that opens an argument list is a parenthesis. -/
theorem bytes_span_of_opensList (h : step ∈ steps lines) (opens : step.opensList = true) :
    step.span.bytes lines = [Ascii.openParen] := by
  obtain ⟨front, rest, split⟩ := List.append_of_mem h
  obtain ⟨_, scanned, _⟩ := run_of_steps_eq split
  have kind := scanned.kind_of_opensList opens
  rw [(liesIn_span h).2]
  cases scanned.counts with
  | opening _ mark => exact mark.text
  | closing other =>
    rw [kind] at other
    cases other
  | neither other => exact absurd kind other

/-- Every token ends before the later ones start. -/
theorem pairwise_endsBy (lines : List Text) :
    (steps lines).Pairwise fun a b => a.span.EndsBy b.span := by
  refine (pairwise_steps lines).imp_of_mem fun {a b} ha hb precedes => ?_
  obtain above | ⟨same, left⟩ := precedes
  · exact .inl above
  · refine .inr ⟨same, Nat.le_of_not_lt fun overlaps => ?_⟩
    -- Otherwise both would cover the first byte of the later one.
    have covers : a.Covers ⟨b.line, b.token.start⟩ := ⟨same, Nat.le_of_lt left, overlaps⟩
    have covers' : b.Covers ⟨b.line, b.token.start⟩ :=
      ⟨rfl, Nat.le_refl _, (liesIn_span hb).1.nonempty⟩
    rw [eq_of_covers ha hb covers covers'] at left
    exact Nat.lt_irrefl _ left

end Walk

namespace CallTip

open Statement

/-- The spans of a call are those of its word, of the parenthesis behind it, of the blanks that
separate arguments in what follows, and of the parenthesis that closes the list. -/
structure Call.SpannedBy (call : Call) (word opening : Step) (inner : List Step)
    (closing? : Option Step) : Prop where
  name : call.name = word.tokenText
  nameSpan : call.nameSpan = word.span
  startSpan : call.startSpan = opening.span
  separators : call.separators.reverse = (inner.filter Step.separates).map Step.span
  endSpan : call.endSpan? = closing?.map Step.span
  opens : opening.opensList = true
  inside : ∀ step ∈ inner, step.closesList = false
  closes : ∀ step ∈ closing?, step.closesList = true

namespace Call.SpannedBy

variable {call : Call} {word opening step : Step} {inner : List Step}
  (spanned : call.SpannedBy word opening inner none)
include spanned

theorem follow_of_stays (scanned : step.Scanned) (stop : step.closesList = false) :
    (call.follow step).SpannedBy word opening (inner ++ [step]) none := by
  have inside : ∀ other ∈ inner ++ [step], other.closesList = false := by
    intro other member
    rcases List.mem_append.mp member with member | member
    · exact spanned.inside other member
    · rw [List.mem_singleton.mp member]
      exact stop
  have separates : step.token.trigger.has .parameterNext = step.separates := by
    rw [Bool.eq_iff_iff, Step.separates_iff]
    exact scanned.labelled.separates
  have none : ∀ other ∈ (none : Option Step), other.closesList = true :=
    fun other member => absurd member (Option.not_mem_none other)
  rw [Step.closesList] at stop
  have follow : call.follow step = { call with
      arguments := call.arguments.add step
      separators := if step.separates then step.span :: call.separators else call.separators } := by
    cases next : step.separates <;> simp [Call.follow, separates, next, stop]
  have separators :
      (if step.separates then step.span :: call.separators else call.separators).reverse =
        ((inner ++ [step]).filter Step.separates).map Step.span := by
    cases next : step.separates <;> simp [spanned.separators, next]
  rw [follow]
  exact ⟨spanned.name, spanned.nameSpan, spanned.startSpan, separators, spanned.endSpan,
    spanned.opens, inside, none⟩

theorem follow_of_closes (stop : step.closesList = true)
    (next : step.token.trigger.has .parameterNext = false) :
    (call.follow step).SpannedBy word opening inner (some step) := by
  have closes : ∀ other ∈ some step, other.closesList = true := by
    rintro _ ⟨⟩
    exact stop
  rw [Step.closesList] at stop
  have follow : call.follow step = { call with
      arguments := call.arguments.add step, endSpan? := some step.span } := by
    simp [Call.follow, next, stop]
  rw [follow]
  exact ⟨spanned.name, spanned.nameSpan, spanned.startSpan, spanned.separators, rfl, spanned.opens,
    spanned.inside, closes⟩

end Call.SpannedBy

/-- Where the spans come from that following some steps has found: those of the word that is held,
and those of the call whose argument list is open. -/
def Trail.Spanned (trail : Trail) (steps : List Step) : Reading → Prop
  | .between head? => head?.isSome = true → ∃ front word gap, steps = front ++ word :: gap ∧
      trail.name = word.tokenText ∧ trail.nameSpan = word.span
  | .within _ _ => ∃ call front word gap opening inner, trail.call? = some call ∧
      steps = front ++ word :: (gap ++ opening :: inner) ∧ call.SpannedBy word opening inner none

namespace Trail

variable {trail : Trail} {steps : List Step} {step : Step} {reading next : Reading}

/-- One more token keeps the spans. -/
theorem Spanned.follow (spanned : trail.Spanned steps reading) (tracks : trail.Tracks reading)
    (scanned : step.Scanned) (turn : Reading.Turn step reading next) :
    (trail.follow step).Spanned (steps ++ [step]) next := by
  cases turn with
  | opens kind start stop =>
    obtain ⟨closed, _⟩ := tracks
    obtain ⟨front, word, gap, rfl, name, span⟩ := spanned rfl
    have other : step.token.kind.isWord = false := by rw [kind]; rfl
    have follow : trail.follow step =
        { trail with call? := some (trail.openCall step), isOpen := true } := by
      rw [Step.opensList] at start
      simp [Trail.follow, closed, other, start]
    rw [follow]
    exact ⟨trail.openCall step, front, word, gap, step, [], rfl, by simp, name, span, rfl, rfl, rfl,
      start, fun _ member => absurd member List.not_mem_nil,
      fun other member => absurd member (Option.not_mem_none other)⟩
  | closes start stop next =>
    intro held
    cases held
  | names word start stop =>
    obtain ⟨closed, _⟩ := tracks
    intro _
    refine ⟨steps, step, [], rfl, ?_⟩
    simp [Trail.follow, closed, word]
  | passes word start stop kept =>
    obtain ⟨closed, _⟩ := tracks
    intro held
    obtain ⟨head, rfl⟩ := Option.isSome_iff_exists.mp held
    obtain ⟨front, last, gap, rfl, name, span⟩ := spanned (by rw [kept head rfl]; rfl)
    refine ⟨front, last, gap ++ [step], by simp, ?_⟩
    rw [Step.opensList] at start
    simpa [Trail.follow, closed, word, start] using ⟨name, span⟩
  | stays start stop =>
    obtain ⟨isOpen, _⟩ := tracks
    obtain ⟨call, front, word, gap, opening, inner, hcall, rfl, spanned⟩ := spanned
    refine ⟨call.follow step, front, word, gap, opening, inner ++ [step], ?_, by simp,
      spanned.follow_of_stays scanned stop⟩
    simp [Trail.follow, isOpen, hcall]

/-- A run keeps the spans. -/
theorem spanned_run {t : State} (run : Walk.Run .start steps t) :
    (steps.foldl Trail.follow .start).Spanned steps
      (steps.foldl Reading.after (.between none)) := by
  suffices kept : (steps.foldl Reading.after (.between none)).Fits t ∧
      (steps.foldl Trail.follow .start).Tracks (steps.foldl Reading.after (.between none)) ∧
      (steps.foldl Trail.follow .start).Spanned steps
        (steps.foldl Reading.after (.between none)) from kept.2.2
  apply run.concat_induction
  · refine ⟨Reading.fits_start, tracks_start, fun held => ?_⟩
    cases held
  · rintro xs step ⟨fits, tracks, spanned⟩ scanned
    obtain ⟨next, hnext, turn, fits'⟩ := fits.turn scanned
    rw [List.foldl_append, List.foldl_cons, List.foldl_nil, hnext, List.foldl_append,
      List.foldl_cons, List.foldl_nil]
    exact ⟨fits', tracks.follow turn fits', spanned.follow tracks scanned turn⟩

end Trail

variable {source : Source} {line : Nat} {column : Int} {tip : CallTip}

/-- The tokens of the call that a tip is for, among those that are seen from its place. -/
structure Shows (tip : CallTip) (seen front : List Step) (word : Step) (gap : List Step)
    (opening : Step) (inner : List Step) (closing? : Option Step) : Prop where
  seen : seen = front ++ word :: (gap ++ opening :: (inner ++ closing?.toList))
  tip : ∃ call signature, call.SpannedBy word opening inner closing? ∧ tip = ofCall call signature

/-- In an argument list that is open, the tip shows the tokens seen of its call. -/
theorem exists_shows_of_isOpen
    (isOpen : ((Walk.upTo source.lines line column).foldl Trail.follow .start).isOpen = true)
    (h : atLine? source line column = some tip) :
    ∃ front word gap opening inner,
      tip.Shows (Walk.upTo source.lines line column) front word gap opening inner none := by
  obtain ⟨t, run⟩ := Walk.exists_run_upTo source.lines line column
  have tracks := tracks_upTo source.lines line column
  have spanned := Trail.spanned_run run
  rw [Script.readingAt] at tracks
  cases reading : (Walk.upTo source.lines line column).foldl Reading.after (.between none) with
  | between head? =>
    rw [reading] at tracks
    rw [tracks.1] at isOpen
    cases isOpen
  | within head args =>
    rw [reading] at spanned
    obtain ⟨call, front, word, gap, opening, inner, hcall, seen, spanned⟩ := spanned
    rw [atLine?_of_call source line column (.inl isOpen) hcall] at h
    obtain ⟨signature, _, rfl⟩ := Option.map_eq_some_iff.mp h
    refine ⟨front, word, gap, opening, inner, ?_, call, signature, spanned, rfl⟩
    rw [seen, Option.toList_none, List.append_nil]

/-- At a parenthesis that closes an argument list, the tip shows the tokens of the whole call. -/
theorem exists_shows_of_closesAt
    (closes : closesAt (Walk.upTo source.lines line column) line column = true)
    (h : atLine? source line column = some tip) :
    ∃ front word gap opening inner closing,
      tip.Shows (Walk.upTo source.lines line column) front word gap opening inner
        (some closing) := by
  obtain ⟨t, run⟩ := Walk.exists_run_upTo source.lines line column
  have last := closes
  unfold closesAt at last
  split at last
  · next closing hlast =>
    obtain ⟨steps, hsteps⟩ := List.getLast?_eq_some_iff.mp hlast
    simp only [Bool.and_eq_true, decide_eq_true_eq] at last
    have stop : closing.closesList = true := last.1.1
    rw [hsteps] at run
    obtain ⟨head, args, within, next⟩ := exists_within_of_closesList run stop
    obtain ⟨_, left, _⟩ := run.of_append
    have spanned := Trail.spanned_run left
    have tracks := Trail.tracks_start.run Reading.fits_start left
    rw [within] at spanned tracks
    obtain ⟨call, front, word, gap, opening, inner, hcall, rfl, spanned⟩ := spanned
    have hcall' : ((Walk.upTo source.lines line column).foldl Trail.follow .start).call? =
        some (call.follow closing) := by
      rw [hsteps, List.foldl_append, List.foldl_cons, List.foldl_nil, Trail.follow, if_pos tracks.1,
        hcall]
      rfl
    rw [atLine?_of_call source line column (.inr closes) hcall'] at h
    obtain ⟨signature, _, rfl⟩ := Option.map_eq_some_iff.mp h
    refine ⟨front, word, gap, opening, inner, closing, ?_, _, signature,
      spanned.follow_of_closes stop next, rfl⟩
    rw [hsteps]
    simp
  · cases last

/-- Every tip shows the tokens of its call that are seen. -/
theorem exists_shows (h : atLine? source line column = some tip) :
    ∃ front word gap opening inner closing?,
      tip.Shows (Walk.upTo source.lines line column) front word gap opening inner closing? := by
  cases isOpen : ((Walk.upTo source.lines line column).foldl Trail.follow .start).isOpen with
  | true =>
    obtain ⟨front, word, gap, opening, inner, shows⟩ := exists_shows_of_isOpen isOpen h
    exact ⟨front, word, gap, opening, inner, none, shows⟩
  | false =>
    cases closes : closesAt (Walk.upTo source.lines line column) line column with
    | true =>
      obtain ⟨front, word, gap, opening, inner, closing, shows⟩ := exists_shows_of_closesAt closes h
      exact ⟨front, word, gap, opening, inner, some closing, shows⟩
    | false =>
      simp [atLine?, isOpen, closes] at h

/-- The active parameter is one of the parameters. -/
theorem activeParameter?_lt {parameters : List Parameter} {index i : Nat}
    (h : activeParameter? parameters index = some i) : i < parameters.length := by
  unfold activeParameter? at h
  split at h
  · next inside =>
    cases h
    exact inside
  split at h
  · next last found =>
    split at h
    · cases h
      exact Nat.sub_one_lt_of_lt (List.length_pos_of_mem (List.mem_of_getLast? found))
    · cases h
  · cases h

/-- The spans of a tip in the order of the call. -/
def spans (tip : CallTip) : List Span :=
  tip.nameSpan :: tip.startSpan :: tip.nextSpans ++ tip.endSpan?.toList

namespace Shows

variable {seen front : List Step} {word : Step} {gap : List Step} {opening : Step}
  {inner : List Step} {closing? : Option Step}
  (shows : tip.Shows seen front word gap opening inner closing?)
include shows

/-- The spans of a tip are those of the tokens of its call. -/
theorem spans_eq : tip.spans =
    (word :: opening :: inner.filter Step.separates ++ closing?.toList).map Step.span := by
  obtain ⟨call, signature, spanned, rfl⟩ := shows.tip
  simp only [spans, ofCall, spanned.nameSpan, spanned.startSpan, spanned.separators,
    spanned.endSpan, List.map_append, List.map_cons, List.cons_append]
  cases closing? <;> rfl

/-- The tokens that have a span are some of those that are seen, in their order. -/
theorem sublist :
    (word :: opening :: inner.filter Step.separates ++ closing?.toList).Sublist seen := by
  rw [shows.seen, List.cons_append, List.cons_append]
  apply List.Sublist.trans _ (List.sublist_append_right front _)
  apply List.Sublist.cons_cons
  apply List.Sublist.trans _ (List.sublist_append_right gap _)
  apply List.Sublist.cons_cons
  exact List.filter_sublist.append_right _

end Shows

/-- **The spans of a call tip stand in order.** The name, the parenthesis behind it, the separators
and the parenthesis that closes the list are stretches of one line each that are not empty, end
before the next one starts, and start at or before the position. The name and the parenthesis are
what their spans cover. Of the tokens that start at or before the position, the separators are all
the blanks directly inside the argument list, and the active parameter is one that the tip has. -/
theorem tip_spans_in_order {p : Position} (h : around? source p = some tip) :
    ∃ line, p.lineIn? source.lines = some line ∧
      (∀ span ∈ tip.spans, span.LiesIn source.lines ∧
        (span.startLine < line ∨ span.startLine = line ∧ (span.startColumn : Int) ≤ p.column)) ∧
      tip.spans.Pairwise Span.EndsBy ∧
      tip.nameSpan.bytes source.lines = tip.name ∧
      tip.startSpan.bytes source.lines = [Ascii.openParen] ∧
      (∃ (front : List Step) (opening : Step) (inner : List Step) (closing? : Option Step),
        (Walk.steps source.lines).filter (Step.startsBy line p.column) =
          front ++ opening :: (inner ++ closing?.toList) ∧
        opening.opensList = true ∧ (∀ step ∈ inner, step.closesList = false) ∧
        (∀ step ∈ closing?, step.closesList = true) ∧
        tip.startSpan = opening.span ∧ tip.endSpan? = closing?.map Step.span ∧
        tip.nextSpans = (inner.filter Step.separates).map Step.span) ∧
      ∀ i, tip.active? = some i → i < tip.parameters.length := by
  cases hline : p.lineIn? source.lines with
  | none => simp [around?, hline] at h
  | some line =>
    rw [around?_eq_atLine? hline] at h
    obtain ⟨front, word, gap, opening, inner, closing?, shows⟩ := exists_shows h
    have seen (step : Step)
        (member : step ∈ word :: opening :: inner.filter Step.separates ++ closing?.toList) :=
      Walk.mem_upTo.mp (shows.sublist.mem member)
    refine ⟨line, rfl, ?_, ?_, ?_⟩
    · intro span listed
      rw [shows.spans_eq] at listed
      obtain ⟨step, member, rfl⟩ := List.mem_map.mp listed
      obtain ⟨inScript, starts⟩ := seen step member
      exact ⟨(Walk.liesIn_span inScript).1, Step.startsBy_iff.mp starts⟩
    · rw [shows.spans_eq, List.pairwise_map]
      exact (Walk.pairwise_endsBy source.lines).sublist
        (shows.sublist.trans (Walk.upTo_isPrefix ..).sublist)
    · have wordSeen := (seen word List.mem_cons_self).1
      have openingSeen := (seen opening (List.mem_cons_of_mem _ List.mem_cons_self)).1
      obtain ⟨call, signature, spanned, rfl⟩ := shows.tip
      refine ⟨?_, ?_, ⟨front ++ word :: gap, opening, inner, closing?, ?_, spanned.opens,
        spanned.inside, spanned.closes, spanned.startSpan, spanned.endSpan, spanned.separators⟩,
        fun i active => activeParameter?_lt active⟩
      · exact (congrArg (Span.bytes · source.lines) spanned.nameSpan).trans
          ((Walk.liesIn_span wordSeen).2.trans spanned.name.symm)
      · exact (congrArg (Span.bytes · source.lines) spanned.startSpan).trans
          (Walk.bytes_span_of_opensList openingSeen spanned.opens)
      · rw [← Walk.upTo_eq_filter, shows.seen]
        simp

/-- Behind another call, at the parenthesis that closes a list begun on the line before. -/
theorem tip_spans_in_order_over_lines :
    ∃ source tip, source.lines = [utf8 "f(x y)", utf8 "set (A", utf8 " B)"] ∧
      around? source ⟨7, 2⟩ = some tip ∧
      tip.spans = [⟨1, 0, 1, 3⟩, ⟨1, 4, 1, 5⟩, ⟨2, 0, 2, 1⟩, ⟨2, 2, 2, 3⟩] ∧
      tip.spans.Pairwise Span.EndsBy ∧ tip.nameSpan.bytes source.lines = tip.name := by
  have found : (around? ⟨[], [utf8 "f(x y)", utf8 "set (A", utf8 " B)"], .absent, ⟨false, []⟩⟩
      ⟨7, 2⟩).map spans = some [⟨1, 0, 1, 3⟩, ⟨1, 4, 1, 5⟩, ⟨2, 0, 2, 1⟩, ⟨2, 2, 2, 3⟩] := by
    decide +kernel
  obtain ⟨tip, shown, spans⟩ := Option.map_eq_some_iff.mp found
  obtain ⟨_, _, _, ordered, name, _⟩ := tip_spans_in_order shown
  exact ⟨_, tip, rfl, shown, spans, ordered, name⟩

end CallTip

end CMakeSense
