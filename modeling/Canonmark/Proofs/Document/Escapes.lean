import Canonmark.Proofs.Destination.Wrapping
import Canonmark.Proofs.Document.Built
import Canonmark.Proofs.Text.Split

/-!
# Texts keep their escapes

The parser cuts a text where a character is escaped and leaves out the backslash. The builder puts
the pieces together again: each takes the backslash in front of it, so that a row of pieces becomes
one text, which is what is written there.
-/

namespace Canonmark

theorem Enclosure.stripLines_line (enclosures : List Enclosure) {line : Text} (h : '\n' ∉ line) :
    stripLines enclosures line = line := by
  rw [stripLines, Text.splitLines_line h]
  rfl

namespace Origin

/-- A source is read as it is, or with brackets around the destinations that need them. -/
def Reads (origin : Origin) (source : Text) : Prop :=
  origin = same source ∨
    ∃ wrapped, SpacedDestination.wrap? source = some wrapped ∧
      origin = ⟨wrapped.text, source, wrapped.inserted⟩

def written (origin : Origin) (span : Span) : Text :=
  Text.without origin.inserted span.start (span.slice origin.source)

theorem without_nil (start : Nat) (text : Text) : Text.without [] start text = text := by
  induction text generalizing start with
  | nil => rfl
  | cons c rest ih => simp [Text.without, ih]

variable {origin : Origin} {source : Text}

theorem slice_same (source : Text) (span : Span) : (same source).slice span = span.slice source :=
  congrArg (Span.slice · source) span.upTo_eq

theorem Reads.slice_eq (h : origin.Reads source) {span : Span}
    (hinside : span.stop ≤ origin.source.length) : origin.slice span = origin.written span := by
  rcases h with rfl | ⟨wrapped, hfound, rfl⟩
  · rw [slice_same]
    exact (without_nil span.start _).symm
  · have hundoes := SpacedDestination.wrapped_undoes source wrapped hfound
    exact (hundoes.slices span hinside).2.2.1

theorem written_append (origin : Origin) {start middle stop : Nat} (hfirst : start ≤ middle)
    (hsecond : middle ≤ stop) (hinside : stop ≤ origin.source.length) :
    origin.written (.upTo start stop) =
      origin.written (.upTo start middle) ++ origin.written (.upTo middle stop) := by
  have hsize : (Span.slice (.upTo start middle) origin.source).length = middle - start :=
    Text.length_slice hfirst (Nat.le_trans hsecond hinside)
  rw [written, ← Text.slice_append origin.source hfirst hsecond, Text.without_append, hsize,
    Span.start_upTo, Nat.add_sub_cancel' hfirst]
  rfl

end Origin

namespace Builder

/-- A position is the next one, or one that a single backslash separates from it. -/
def Behind (source : Text) (position next : Nat) : Prop :=
  next = position ∨ next = position + 1 ∧ source[position]? = some '\\'

/--
Spans of texts on one line from `position` up to `stop`, each right behind what stands before it
or behind a single backslash.
-/
inductive TextRow (source : Text) : (position : Nat) → List Span → (stop : Nat) → Prop
  | nil (position : Nat) : TextRow source position [] position
  | cons {position stop : Nat} {span : Span} {rest : List Span}
      (hbehind : Behind source position span.start) (hinside : span.stop ≤ source.length)
      (hline : '\n' ∉ span.slice source) :
      TextRow source span.stop rest stop → TextRow source position (span :: rest) stop

def pushTexts (origin : Origin) (spans : List Span) (content : List Inline) (builder : Builder) :
    List Inline × Builder :=
  spans.foldl (fun state span => pushText origin span state.1 state.2) (content, builder)

def withText (content : List Inline) (text : Text) : List Inline :=
  match content with
  | .leaf (.text before) :: rest => .leaf (.text (before ++ text)) :: rest
  | _ => .leaf (.text text) :: content

theorem withText_withText (content : List Inline) (first second : Text) :
    withText (withText content first) second = withText content (first ++ second) := by
  fun_cases withText content first <;> simp [withText]

section

variable {origin : Origin} {source : Text} {builder : Builder}

theorem TextRow.bounds {position stop : Nat} {spans : List Span}
    (h : TextRow source position spans stop) : position ≤ stop ∧
      (spans ≠ [] → stop ≤ source.length) := by
  induction h with
  | nil => exact ⟨Nat.le_refl _, fun hsome => absurd rfl hsome⟩
  | @cons position stop span rest hbehind hinside hline hlater ih =>
      have hfirst : position ≤ span.start := by
        rcases hbehind with hsame | ⟨hnext, -⟩ <;> omega
      refine ⟨Nat.le_trans hfirst (Nat.le_trans span.start_le_stop ih.1), fun _ => ?_⟩
      cases hlater with
      | nil => exact hinside
      | cons => exact ih.2 (by simp)

theorem pushText_behind (hreads : origin.Reads source) {span : Span}
    (hbehind : Behind origin.source builder.inlineEnd span.start)
    (hinside : span.stop ≤ origin.source.length) (hline : '\n' ∉ span.slice origin.source)
    (content : List Inline) :
    pushText origin span content builder =
      (withText content (origin.written (.upTo builder.inlineEnd span.stop)),
        { builder with inlineEnd := span.stop }) := by
  have hstart : (if (builder.inlineEnd < span.start
      && (origin.source.drop (span.start - 1)).head? = some '\\') = true then span.start - 1
      else span.start) = builder.inlineEnd := by
    rcases hbehind with hsame | ⟨hnext, hbackslash⟩
    · simp [hsame]
    · simp [hnext, List.head?_drop, hbackslash]
  have hfirst : builder.inlineEnd ≤ span.start := by
    rcases hbehind with hsame | ⟨hnext, -⟩ <;> omega
  have hle := span.start_le_stop
  have honeLine : '\n' ∉ Span.slice (.upTo builder.inlineEnd span.stop) origin.source := by
    rw [← Text.slice_append origin.source hfirst hle, span.upTo_eq, List.mem_append, not_or]
    refine ⟨fun hmem => ?_, hline⟩
    rcases hbehind with hsame | ⟨hnext, hbackslash⟩
    · simp [Span.slice_upTo, hsame] at hmem
    · obtain ⟨hlt, hhere⟩ := List.getElem?_eq_some_iff.mp hbackslash
      rw [Span.slice_upTo, hnext, Nat.add_sub_cancel_left, List.drop_eq_getElem_cons hlt, hhere]
        at hmem
      simp at hmem
  have htext : builder.slice origin (.upTo builder.inlineEnd span.stop) =
      origin.written (.upTo builder.inlineEnd span.stop) := by
    rw [slice, hreads.slice_eq (by rwa [Span.stop_upTo_of_le (Nat.le_trans hfirst hle)])]
    refine Enclosure.stripLines_line _ fun hmem => honeLine ?_
    exact (Text.without_sublist _ _ _).mem hmem
  simp only [pushText, hstart, htext]
  cases content with
  | nil => rfl
  | cons node rest =>
      cases node with
      | leaf leaf => cases leaf <;> rfl
      | node => rfl

theorem pushTexts_row (hreads : origin.Reads source) {spans : List Span} {stop : Nat}
    (hrow : TextRow origin.source builder.inlineEnd spans stop) (hsome : spans ≠ [])
    (content : List Inline) :
    pushTexts origin spans content builder =
      (withText content (origin.written (.upTo builder.inlineEnd stop)),
        { builder with inlineEnd := stop }) := by
  induction spans generalizing builder content with
  | nil => exact absurd rfl hsome
  | cons span rest ih =>
      cases hrow with
      | cons hbehind hinside hline hlater =>
          have hle := span.start_le_stop
          have hfirst : builder.inlineEnd ≤ span.stop := by
            rcases hbehind with hsame | ⟨hnext, -⟩ <;> omega
          have hstep := pushText_behind hreads hbehind hinside hline content
          change pushTexts origin rest (pushText origin span content builder).1
            (pushText origin span content builder).2 = _
          rw [hstep]
          by_cases hlast : rest = []
          · subst hlast
            cases hlater
            rfl
          · have hbounds := hlater.bounds
            rw [@ih { builder with inlineEnd := span.stop } hlater hlast,
              withText_withText,
              ← origin.written_append hfirst hbounds.1 (hbounds.2 hlast)]

def textEvents (texts : List (Text × Span)) : List Source.Located :=
  texts.map fun (text, span) => (.text text, span)

theorem pushText_events (span : Span) (content : List Inline) (builder : Builder)
    (events : List Source.Located) :
    pushText origin span content { builder with events := events } =
      ((pushText origin span content builder).1,
        { (pushText origin span content builder).2 with events := events }) := by
  unfold pushText
  simp only
  split <;> rfl

theorem inlines_textEvents (fuel : Nat) {texts : List (Text × Span)} {rest : List Source.Located}
    (content : List Inline) (hevents : builder.events = textEvents texts ++ rest) :
    inlines origin (texts.length + fuel + 1) content builder =
      inlines origin (fuel + 1)
        (pushTexts origin (texts.map (·.2)) content { builder with events := rest }).1
        (pushTexts origin (texts.map (·.2)) content { builder with events := rest }).2 := by
  induction texts generalizing builder content with
  | nil =>
      obtain rfl : builder.events = rest := hevents
      simp [pushTexts]
  | cons first texts ih =>
      obtain ⟨text, span⟩ := first
      have hsize : ((text, span) :: texts).length + fuel + 1 = texts.length + fuel + 1 + 1 := by
        rw [List.length_cons]
        omega
      have htaken : builder.events = (.text text, span) :: (textEvents texts ++ rest) := hevents
      have hread : inline origin (texts.length + fuel + 1) (.text text) span content
          { builder with events := textEvents texts ++ rest } =
            pushText origin span content { builder with events := textEvents texts ++ rest } := rfl
      rw [hsize, inlines_cons (by simp) content builder htaken, hread, pushText_events,
        @ih { (pushText origin span content builder).2 with
          events := textEvents texts ++ rest } _ rfl]
      simp only [List.map_cons, pushTexts, List.foldl_cons, pushText_events]

/--
A row of texts becomes one text: what is written from the end of the latest inline event up to the
end of the row, as it was supplied. No backslash is lost, and none is taken twice.
-/
theorem texts_written (hreads : origin.Reads source) {texts : List (Text × Span)} {stop : Nat}
    (hrow : TextRow origin.source builder.inlineEnd (texts.map (·.2)) stop) (hsome : texts ≠ [])
    (content : List Inline) :
    pushTexts origin (texts.map (·.2)) content builder =
        (withText content (origin.written (.upTo builder.inlineEnd stop)),
          { builder with inlineEnd := stop }) ∧
      ∀ (fuel : Nat) (rest : List Source.Located), builder.events = textEvents texts ++ rest →
        inlines origin (texts.length + fuel + 1) content builder =
          inlines origin (fuel + 1)
            (withText content (origin.written (.upTo builder.inlineEnd stop)))
            { builder with events := rest, inlineEnd := stop } := by
  have hspans : texts.map (·.2) ≠ [] := by simpa using hsome
  refine ⟨pushTexts_row hreads hrow hspans content, fun fuel rest hevents => ?_⟩
  have hpushed := @pushTexts_row origin source { builder with events := rest } hreads _ _ hrow
    hspans content
  rw [inlines_textEvents fuel content hevents, hpushed]

end

/-- The brackets that were inserted stand among the texts behind an autolink. -/
theorem texts_written_wrapped :
    let source : Text := "<ab:[>](1 c)\\*d\\\\*".toList
    let origin : Origin := ⟨"<ab:[>](<1 c>)\\*d\\\\*".toList, source, [8, 12]⟩
    let builder : Builder := { events := [], inlineEnd := 6 }
    let texts : List (Text × Span) :=
      [(['('], .upTo 6 8), (['<'], .upTo 8 9), ("1 c>)".toList, .upTo 9 14),
        (['*', 'd'], .upTo 15 17), (['\\'], .upTo 18 19), (['*'], .upTo 19 20)]
    origin.Reads source ∧ TextRow origin.source builder.inlineEnd (texts.map (·.2)) 20 ∧
      texts ≠ [] ∧
      pushTexts origin (texts.map (·.2)) [] builder =
        ([.leaf (.text "](1 c)\\*d\\\\*".toList)], { builder with inlineEnd := 20 }) := by
  intro source origin builder texts
  have hreads : origin.Reads source := .inr ⟨_, rfl, rfl⟩
  have hrow : TextRow origin.source builder.inlineEnd (texts.map (·.2)) 20 := by
    refine .cons (.inl rfl) (by decide) (by decide) ?_
    refine .cons (.inl rfl) (by decide) (by decide) ?_
    refine .cons (.inl rfl) (by decide) (by decide) ?_
    refine .cons (.inr ⟨rfl, rfl⟩) (by decide) (by decide) ?_
    refine .cons (.inr ⟨rfl, rfl⟩) (by decide) (by decide) ?_
    exact .cons (.inl rfl) (by decide) (by decide) (.nil 20)
  have hsome : texts ≠ [] := List.cons_ne_nil _ _
  exact ⟨hreads, hrow, hsome, (texts_written hreads hrow hsome []).1⟩

end Builder

end Canonmark
