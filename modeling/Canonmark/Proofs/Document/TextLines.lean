import Canonmark.Proofs.Document.QuotedLines
import Canonmark.Proofs.Source.TextLine

/-!
# Lines of text in a document

Lines of text with soft breaks between them are read as their texts, as they are written. What looks
like a reference in them is one.
-/

namespace Canonmark

open Source (Token Located InlineContext InlineNode Mark LineTexts)

namespace Source

/-- Tokens of lines of text and of the soft breaks between them, in their order. -/
inductive LinesTexts (source : Text) : (position : Nat) → List Text → List Token → Prop
  | last {position : Nat} {line : Text} {tokens : List Token} :
      LineTexts source position line tokens → LinesTexts source position [line] tokens.reverse
  | cons {position : Nat} {line next : Text} {more : List Text} {tokens rest : List Token} :
      LineTexts source position line tokens →
        LinesTexts source (position + line.length + 1) (next :: more) rest →
          LinesTexts source position (line :: next :: more)
            (tokens.reverse ++
              ⟨.softBreak, .ofLength (position + line.length) 1⟩ :: rest)

def Token.isPlain (token : Token) : Bool := token.mark.isText || token.mark = .softBreak

theorem LinesTexts.isPlain {source : Text} {position : Nat} {lines : List Text}
    {tokens : List Token} (h : LinesTexts source position lines tokens) :
    ∀ token ∈ tokens, token.isPlain = true := by
  have htexts {position : Nat} {line : Text} {tokens : List Token}
      (h : LineTexts source position line tokens) :
      ∀ token ∈ tokens.reverse, token.isPlain = true :=
    fun token hmem => Bool.or_eq_true_iff.mpr (.inl (h.rowed.texts token
      (List.mem_reverse.mp hmem)))
  induction h with
  | last hline => exact htexts hline
  | cons hline _ ih =>
      intro token hmem
      rcases List.mem_append.mp hmem with hinLine | hbehind
      · exact htexts hline token hinLine
      · rcases List.mem_cons.mp hbehind with rfl | hmem
        · rfl
        · exact ih token hmem

def plainNode (context : InlineContext) (token : Token) : InlineNode :=
  match token.mark with
  | .entity value => .atom (.text value) token.span
  | .softBreak => .atom .softBreak token.span
  | _ => LinkState.textNode context token.span

theorem settle_plain (context : InlineContext) {token : Token} (hplain : token.isPlain = true)
    (rest : List Token) (state : LinkState) :
    settle context token rest state = (state.push (plainNode context token), rest) := by
  obtain ⟨mark, span⟩ := token
  cases mark <;> first | rfl | cases hplain

theorem settleAll_plain (context : InlineContext) {tokens : List Token}
    (hplain : ∀ token ∈ tokens, token.isPlain = true) {fuel : Nat} (henough : tokens.length ≤ fuel)
    (state : LinkState) :
    settleAll context fuel state tokens =
      { state with nodes := (tokens.map (plainNode context)).reverse ++ state.nodes } := by
  induction tokens generalizing fuel state with
  | nil => cases fuel <;> rfl
  | cons token tokens ih =>
      obtain ⟨hfirst, hplain⟩ := List.forall_mem_cons.mp hplain
      obtain ⟨fuel, rfl⟩ := Nat.exists_eq_add_of_le' henough
      rw [List.length_cons, ← Nat.add_assoc, settleAll]
      simp only [settle_plain context hfirst]
      rw [ih hplain (Nat.le_add_left _ _)]
      simp [LinkState.push]

theorem resolveInsides_plain (context : InlineContext) (tokens : List Token) :
    Emphasis.resolveInsides context (tokens.map (plainNode context)) =
      tokens.map (plainNode context) := by
  induction tokens with
  | nil => rfl
  | cons token tokens ih =>
      rw [List.map_cons, Emphasis.resolveInsides, ih]
      obtain ⟨mark, span⟩ := token
      cases mark <;> rfl

theorem isRun_plain (context : InlineContext) (tokens : List Token) :
    (tokens.map (plainNode context)).any Emphasis.isRun = false := by
  rw [List.any_map, List.any_eq_false]
  rintro ⟨mark, span⟩ -
  cases mark <;> exact Bool.false_ne_true

theorem ofTokens_plain (context : InlineContext) (budget : Nat) {tokens : List Token}
    (hplain : ∀ token ∈ tokens, token.isPlain = true) :
    InlineNode.ofTokens context budget tokens = (tokens.map (plainNode context), budget) := by
  have hsettled := settleAll_plain context hplain (Nat.le_succ tokens.length) { budget := budget }
  simp only [InlineNode.ofTokens]
  rw [hsettled]
  simp only [LinkState.flattenAll, List.foldl_nil, List.append_nil, List.reverse_reverse]
  rw [resolveInsides_plain, Emphasis.resolve, isRun_plain, if_neg (by decide)]

def plainEvent (context : InlineContext) (token : Token) : Located :=
  match token.mark with
  | .entity value => (.text value, token.span)
  | .softBreak => (.softBreak, token.span)
  | _ => (.text (context.slice token.span), token.span)

theorem eventsOf_plain (context : InlineContext) (tokens : List Token) :
    InlineNode.eventsOf (tokens.map (plainNode context)) = tokens.map (plainEvent context) := by
  induction tokens with
  | nil => rfl
  | cons token tokens ih =>
      rw [List.map_cons, InlineNode.eventsOf, ih]
      obtain ⟨mark, span⟩ := token
      cases mark <;> rfl

theorem exists_textEvents (context : InlineContext) {tokens : List Token}
    (htexts : ∀ token ∈ tokens, token.mark.isText = true) :
    ∃ read : List (Text × Span), tokens.map (plainEvent context) = Builder.textEvents read ∧
      read.map (·.2) = tokens.map (·.span) := by
  induction tokens with
  | nil => exact ⟨[], rfl, rfl⟩
  | cons token tokens ih =>
      obtain ⟨hfirst, htexts⟩ := List.forall_mem_cons.mp htexts
      obtain ⟨read, hevents, hspans⟩ := ih htexts
      obtain ⟨text, hevent⟩ : ∃ text, plainEvent context token = (.text text, token.span) := by
        obtain ⟨mark, span⟩ := token
        cases mark <;> first | exact ⟨_, rfl⟩ | cases hfirst
      refine ⟨(text, token.span) :: read, ?_, by rw [List.map_cons, hspans, List.map_cons]⟩
      rw [List.map_cons, hevent, hevents]
      rfl

end Source

namespace Builder

variable {source : Text} {builder : Builder} {position stop : Nat} {content : List Inline}

/-- No text has been taken from `position` on, and no backslash in front of it waits for one. -/
structure Before (source : Text) (builder : Builder) (position : Nat) : Prop where
  le : builder.inlineEnd ≤ position
  plain : builder.inlineEnd < position → (source.drop (position - 1)).head? ≠ some '\\'

theorem pushText_before (h : Before source builder position) {span : Span}
    (hbehind : Behind source position span.start) (content : List Inline) :
    pushText (.same source) span content builder =
      pushText (.same source) span content { builder with inlineEnd := position } := by
  have hsame : (builder.inlineEnd < span.start
        && ((Origin.same source).source.drop (span.start - 1)).head? = some '\\')
      = (position < span.start
        && ((Origin.same source).source.drop (span.start - 1)).head? = some '\\') := by
    rcases hbehind with hstart | ⟨hnext, -⟩
    · by_cases hwaits : builder.inlineEnd < position
      · have hnone : ¬(source.drop (position - 1)).head? = some '\\' := h.plain hwaits
        simp only [hstart, Origin.same, hnone, decide_false, Bool.and_false]
      · simp [hstart, hwaits]
    · simp [hnext, Nat.lt_succ_of_le h.le]
  simp only [pushText, hsame]
  rfl

theorem written_same (source : Text) (span : Span) :
    (Origin.same source).written span = span.slice source :=
  Origin.without_nil _ _

theorem pushTexts_before (h : Before source builder position) {spans : List Span}
    (hrow : TextRow source position spans stop) (hsome : spans ≠ []) (content : List Inline) :
    pushTexts (.same source) spans content builder =
      (withText content (Span.slice (.upTo position stop) source),
        { builder with inlineEnd := stop }) := by
  have hreads : (Origin.same source).Reads source := .inl rfl
  have htaken := @pushTexts_row _ source { builder with inlineEnd := position } hreads _ _ hrow
    hsome content
  rw [written_same] at htaken
  rw [← htaken]
  cases hrow with
  | nil => exact absurd rfl hsome
  | cons hbehind =>
      simp only [pushTexts, List.foldl_cons]
      rw [pushText_before h hbehind]

def Fresh (content : List Inline) : Prop := ∀ text, content.head? ≠ some (.leaf (.text text))

theorem Fresh.withText (h : Fresh content) (text : Text) :
    withText content text = .leaf (.text text) :: content := by
  fun_cases Builder.withText content text with
  | case1 before rest => exact absurd rfl (h before)
  | case2 => rfl

open Source (LineTexts LinesTexts plainEvent exists_textEvents Token InlineContext Located)

variable {tokens : List Token} {rest : List Located} {line : Text} {lines : List Text}

theorem inlines_line (context : InlineContext) (htexts : LineTexts source position line tokens)
    (h : Before source builder position) (hfresh : Fresh content) (fuel : Nat)
    (hevents : builder.events = tokens.reverse.map (plainEvent context) ++ rest) :
    inlines (.same source) (tokens.length + fuel + 1) content builder =
      inlines (.same source) (fuel + 1) (.leaf (.text line) :: content)
        { builder with events := rest, inlineEnd := position + line.length } := by
  obtain ⟨read, hsame, hspans⟩ := exists_textEvents context
    fun token hmem => htexts.rowed.texts token (List.mem_reverse.mp hmem)
  have hrow := htexts.rowed.row
  rw [← hspans] at hrow
  have hsome : read.map (·.2) ≠ [] := by
    intro hnone
    rw [hnone] at hrow
    have hsize := List.length_pos_of_ne_nil htexts.filled
    generalize hstops : position + line.length = stop at hrow
    cases hrow
    omega
  have hlength : tokens.length = read.length := by
    have hsizes := congrArg List.length hspans
    simpa using hsizes.symm
  rw [hsame] at hevents
  have hbefore : Before source { builder with events := rest } position := ⟨h.le, h.plain⟩
  rw [hlength, inlines_textEvents fuel content hevents, pushTexts_before hbefore hrow hsome,
    htexts.written, hfresh.withText]

def textLines (lines : List Text) : List Inline :=
  VideoDirective.joinLines (lines.map fun line => [.leaf (.text line)])

theorem inlines_softBreak (fuel : Nat) (content : List Inline) {span : Span}
    (hevents : builder.events = (.softBreak, span) :: rest) :
    inlines (.same source) (fuel + 2) content builder =
      inlines (.same source) (fuel + 1) (.leaf .softBreak :: content)
        { builder with events := rest, inlineEnd := span.stop } := by
  rw [inlines_cons (by simp) content builder hevents]
  rfl

/-- Lines of text are the content of what they stand in, but for the references among them. -/
theorem inlines_lines (context : InlineContext) (htexts : LinesTexts source position lines tokens)
    (h : Before source builder position) (hfresh : Fresh content) {fuel : Nat}
    (henough : tokens.length < fuel) {span : Span}
    (hevents : builder.events = tokens.map (plainEvent context) ++ (.leave, span) :: rest) :
    inlines (.same source) fuel content builder =
      (XrefShortcut.splitAll (content.reverse ++ textLines lines),
        { builder with
          events := rest, inlineEnd := position + (Text.joinLines lines).length }) := by
  induction htexts generalizing builder content fuel with
  | @last position line tokens htexts =>
      obtain ⟨fuel, rfl⟩ : ∃ n, fuel = tokens.length + n + 1 :=
        ⟨fuel - tokens.length - 1, by rw [List.length_reverse] at henough; omega⟩
      rw [inlines_line context htexts h hfresh fuel hevents, inlines]
      simp [textLines, VideoDirective.joinLines, Text.joinLines, Text.joinWith]
  | @cons position line next more tokens others htexts hlater ih =>
      simp only [List.length_append, List.length_reverse, List.length_cons] at henough
      obtain ⟨fuel, rfl⟩ : ∃ n, fuel = tokens.length + (n + 1) + 1 :=
        ⟨fuel - tokens.length - 2, by omega⟩
      rw [List.map_append, List.append_assoc] at hevents
      rw [inlines_line context htexts h hfresh (fuel + 1) hevents,
        inlines_softBreak fuel _ rfl]
      have hbehind := @ih
        { builder with
          events := others.map (plainEvent context) ++ (.leave, span) :: rest
          inlineEnd := position + line.length + 1 }
        (.leaf .softBreak :: .leaf (.text line) :: content)
        ⟨Nat.le_refl _, fun hless => absurd hless (Nat.lt_irrefl _)⟩ (by simp [Fresh])
        (fuel + 1) (by omega) rfl
      have hwhole : (.leaf .softBreak :: .leaf (.text line) :: content).reverse
            ++ textLines (next :: more)
          = content.reverse ++ textLines (line :: next :: more) := by
        simp [textLines, VideoDirective.joinLines_cons_cons]
      have hsize : position + line.length + 1 + (Text.joinLines (next :: more)).length
          = position + (Text.joinLines (line :: next :: more)).length := by
        simp only [Text.joinLines, Text.joinWith, List.length_append, List.length_singleton]
        omega
      rw [hwhole, hsize] at hbehind
      exact hbehind

end Builder

end Canonmark
