import Canonmark.Proofs.Document.Escapes
import Canonmark.Proofs.Source.RunLine

/-!
# Lines of text

A line that has no marks on it is text. Escapes and character references cut it into pieces, which
stand in a row from its start to its end.
-/

namespace Canonmark.Source

open Builder (Behind TextRow)
open SpacedDestination (isInner)

def Mark.isText : Mark → Bool
  | .text => true
  | .entity _ => true
  | _ => false

namespace TokenLine

/-- Whether nothing but text follows on a line, after `skip` characters that are spoken for. -/
def isTextFrom (extensions : Extensions) : (behind : Text) → (skip : Nat) → Text → Bool
  | _, skip, [] => skip = 0
  | behind, skip + 1, c :: rest => isTextFrom extensions (c :: behind) skip rest
  | behind, 0, c :: rest =>
      let progress := step extensions behind [] 0 0 c (rest ++ ['\n'])
      progress.tokens.all (·.mark.isText) && isTextFrom extensions (c :: behind) progress.skip rest

/-- A line of text alone, with neither a blank nor a hard break at its end. -/
def isText (extensions : Extensions) (line : Text) : Bool :=
  isTextFrom extensions [] 0 line && countWhile (· = '\\') line.reverse % 2 = 0
    && line.getLast?.any fun c => !Ascii.isBlank c

def Effect.isText : Effect → Bool
  | .mark content _ _ => content.isText
  | _ => true

theorem Effect.all_progress (effect : Effect) :
    (effect.progress [] 0 0).tokens.all (·.mark.isText) = effect.isText := by
  cases effect <;> simp [progress, isText, TokenLine.mark, Token.pushText]

theorem EffectOf.text {extensions : Extensions} {c : Char} {rest : Text} {content : Mark}
    {offset size : Nat} (h : EffectOf extensions c rest (.mark content offset size))
    (htext : content.isText = true) : offset = 0 ∧ 0 < size := by
  cases h with
  | entity => exact ⟨rfl, Nat.succ_pos _⟩
  | _ => cases htext

end TokenLine

structure OnLine (source : Text) (start stop : Nat) : Prop where
  inside : stop ≤ source.length
  feed : '\n' ∉ Span.slice (.upTo start stop) source

variable {source : Text} {start stop : Nat}

theorem OnLine.within (h : OnLine source start stop) {first last : Nat} (hbegins : start ≤ first)
    (hends : last ≤ stop) : last ≤ source.length ∧ '\n' ∉ Span.slice (.upTo first last) source := by
  refine ⟨Nat.le_trans hends h.inside, fun hmem => h.feed ?_⟩
  by_cases hle : first ≤ last
  · rw [← Text.slice_append source hbegins (Nat.le_trans hle hends),
      ← Text.slice_append source hle hends]
    exact List.mem_append_right _ (List.mem_append_left _ hmem)
  · have hnone : last - first = 0 := by omega
    simp [Span.slice_upTo, hnone] at hmem

theorem textRow_concat {spans : List Span} {span : Span} :
    TextRow source start (spans ++ [span]) stop ↔
      ∃ middle, TextRow source start spans middle ∧ Behind source middle span.start ∧
        span.stop ≤ source.length ∧ '\n' ∉ span.slice source ∧
        stop = span.stop := by
  induction spans generalizing start with
  | nil =>
      constructor
      · intro h
        cases h with
        | cons hbehind hinside hline hrest =>
            cases hrest
            exact ⟨start, .nil start, hbehind, hinside, hline, rfl⟩
      · rintro ⟨middle, hrow, hbehind, hinside, hline, rfl⟩
        cases hrow
        exact .cons hbehind hinside hline (.nil _)
  | cons first spans ih =>
      constructor
      · intro h
        cases h with
        | cons hbehind hinside hline hrest =>
            obtain ⟨middle, hrow, hending⟩ := ih.mp hrest
            exact ⟨middle, .cons hbehind hinside hline hrow, hending⟩
      · rintro ⟨middle, hrow, hending⟩
        cases hrow with
        | cons hbehind hinside hline hrest =>
            exact .cons hbehind hinside hline (ih.mpr ⟨middle, hrest, hending⟩)

/-- Tokens of a line from `start` on, latest first, are texts in a row up to `stop`. -/
structure Rowed (source : Text) (start stop : Nat) (tokens : List Token) : Prop where
  texts : ∀ token ∈ tokens, token.mark.isText = true
  row : TextRow source start (tokens.reverse.map (·.span)) stop

theorem Rowed.cons {tokens : List Token} (h : Rowed source start stop tokens) {mark : Mark}
    (htext : mark.isText = true) {first last : Nat} (hbehind : Behind source stop first)
    (hle : first ≤ last)
    (hline : last ≤ source.length ∧ '\n' ∉ Span.slice (.upTo first last) source) :
    Rowed source start last (⟨mark, .upTo first last⟩ :: tokens) := by
  refine ⟨List.forall_mem_cons.mpr ⟨htext, h.texts⟩, ?_⟩
  rw [List.reverse_cons, List.map_append]
  have hstops : (Span.upTo first last).stop = last := Span.stop_upTo_of_le hle
  exact textRow_concat.mpr ⟨stop, h.row, hbehind, hstops.symm ▸ hline.1, hline.2, hstops.symm⟩

theorem Rowed.stop_eq {tokens : List Token} (h : Rowed source start stop tokens) :
    ∀ token ∈ tokens.head?, token.span.stop = stop := by
  cases tokens with
  | nil => simp
  | cons token tokens =>
      have hrow := h.row
      rw [List.reverse_cons, List.map_append] at hrow
      obtain ⟨middle, -, -, -, -, hsame⟩ := textRow_concat.mp hrow
      simpa using hsame.symm

structure Pending (source : Text) (start begun position : Nat) (tokens : List Token) : Prop where
  rowed : ∃ last, Rowed source start last tokens ∧ Behind source last begun ∧
    (begun < position ∨ begun = position ∧ last = position)

variable {tokens before : List Token} {begun position : Nat}

theorem Pending.le (h : Pending source start begun position tokens) :
    start ≤ begun ∧ begun ≤ position := by
  obtain ⟨last, hrowed, hbehind, hmore⟩ := h.rowed
  have hbounds := hrowed.row.bounds
  rcases hbehind with hsame | ⟨hnext, -⟩ <;> omega

theorem Pending.pushText (h : Pending source start begun position tokens)
    (hline : OnLine source start stop) (hends : position ≤ stop) :
    Rowed source start position (Token.pushText begun position tokens) := by
  have hbounds := h.le
  obtain ⟨last, hrowed, hbehind, hmore⟩ := h.rowed
  have hapart := hline.within hbounds.1 hends
  unfold Token.pushText
  rcases hmore with hless | ⟨rfl, rfl⟩
  · rw [if_neg (Nat.not_le_of_lt hless)]
    split
    · next span rest =>
        split
        · next hsame =>
            have hrow := hrowed.row
            rw [List.reverse_cons, List.map_append] at hrow
            obtain ⟨middle, hrow, hbehind, -⟩ := textRow_concat.mp hrow
            have hfirst : start ≤ span.start := by
              have := hrow.bounds.1
              rcases hbehind with hsame | ⟨hnext, -⟩ <;> simp only at * <;> omega
            have hwhole := hline.within hfirst hends
            have hinner : Rowed source start middle rest :=
              ⟨fun token hmem => hrowed.texts token (List.mem_cons_of_mem _ hmem), hrow⟩
            refine hinner.cons rfl hbehind ?_ hwhole
            have hle := span.start_le_stop
            omega
        · exact hrowed.cons rfl hbehind hbounds.2 hapart
    · exact hrowed.cons rfl hbehind hbounds.2 hapart
  · rwa [if_pos (Nat.le_refl _)]

theorem pushText_append (hfresh : ∀ token ∈ before.head?, token.mark ≠ .text) (start stop : Nat)
    (tokens : List Token) :
    Token.pushText start stop (tokens ++ before) = Token.pushText start stop tokens ++ before := by
  unfold Token.pushText
  split
  · rfl
  · cases tokens with
    | nil =>
        cases before with
        | nil => rfl
        | cons token before =>
            obtain ⟨mark, span⟩ := token
            have hother : mark ≠ .text := hfresh _ rfl
            cases mark <;> first | exact absurd rfl hother | rfl
    | cons token tokens =>
        obtain ⟨mark, span⟩ := token
        cases mark <;> first | rfl | (simp only [List.cons_append]; split <;> rfl)

namespace TokenLine

theorem skip_le_of_isTextFrom {extensions : Extensions} {behind : Text} {skip : Nat} {part : Text}
    (h : isTextFrom extensions behind skip part = true) : skip ≤ part.length := by
  induction part generalizing behind skip with
  | nil =>
      cases skip with
      | zero => exact Nat.le_refl 0
      | succ skip => simp [isTextFrom] at h
  | cons c part ih =>
      cases skip with
      | zero => exact Nat.zero_le _
      | succ skip => exact Nat.succ_le_succ (ih h)

theorem pending_step {extensions : Extensions} {c : Char} {rest behind : Text} {effect : Effect}
    (heffectOf : EffectOf extensions c behind effect) (htext : effect.isText = true)
    (h : Pending source start begun position tokens) (hline : OnLine source start stop)
    (hhere : source.drop position = c :: rest) (hinside : position + 1 + effect.skip ≤ stop) :
    Pending source start (effect.progress tokens begun position).begun
      (position + 1 + effect.skip) (effect.progress tokens begun position).tokens := by
  have hbounds := h.le
  cases effect with
  | plain skip =>
      obtain ⟨last, hrowed, hbehind, -⟩ := h.rowed
      exact ⟨last, hrowed, hbehind, .inl (by simp only [Effect.progress]; omega)⟩
  | escape =>
      have hback : c = '\\' := by
        cases heffectOf with
        | escape hback => exact hback
      have hescapes : source[position]? = some '\\' := by
        rw [← hback, ← Nat.add_zero position, ← List.getElem?_drop, hhere]
        rfl
      simp only [Effect.skip] at hinside
      exact ⟨position, h.pushText hline (by omega), .inr ⟨rfl, hescapes⟩,
        .inl (by simp only [Effect.progress, Effect.skip]; omega)⟩
  | mark content offset size =>
      obtain ⟨rfl, hfilled⟩ := heffectOf.text htext
      simp only [Effect.skip] at hinside
      have hpushed := h.pushText hline (by omega)
      have hapart := @OnLine.within _ _ _ hline position (position + size) (by omega) (by omega)
      have hrowed := hpushed.cons htext (.inl rfl) (by omega) hapart
      rw [Span.upTo_add] at hrowed
      exact ⟨position + size, hrowed, .inl rfl,
        .inr ⟨by simp only [Effect.progress, mark, Effect.skip]; omega,
          by simp only [Effect.skip]; omega⟩⟩

theorem Effect.progress_append (hfresh : ∀ token ∈ before.head?, token.mark ≠ .text)
    (effect : Effect) (tokens : List Token) (begun position : Nat) :
    effect.progress (tokens ++ before) begun position =
      { effect.progress tokens begun position with
        tokens := (effect.progress tokens begun position).tokens ++ before } := by
  cases effect <;> simp [progress, TokenLine.mark, pushText_append hfresh]

/-- A line of text is read up to its end, behind the tokens of other lines. -/
theorem readFrom_text (extensions : Extensions) {part tail : Text}
    (hinner : ∀ c ∈ part, isInner c = true) {behind : Text} {skip : Nat}
    (htext : isTextFrom extensions behind skip part = true)
    (h : Pending source start begun (position + skip) tokens)
    (hline : OnLine source start (position + part.length))
    (hhere : source.drop position = part ++ '\n' :: tail)
    (hfresh : ∀ token ∈ before.head?, token.mark ≠ .text) :
    ∃ tokens' begun', Pending source start begun' (position + part.length) tokens' ∧
      readFrom extensions behind (tokens ++ before) begun position skip (part ++ '\n' :: tail) =
        finish (part.reverse ++ behind) (tokens' ++ before) begun' (position + part.length)
          ('\n' :: tail) := by
  induction part generalizing behind tokens begun position skip with
  | nil =>
      obtain rfl : skip = 0 := Nat.le_zero.mp (skip_le_of_isTextFrom htext)
      exact ⟨tokens, begun, h, rfl⟩
  | cons c part ih =>
      obtain ⟨hc, hinner⟩ := List.forall_mem_cons.mp hinner
      have hnext : source.drop (position + 1) = part ++ '\n' :: tail := by
        rw [← List.drop_drop, hhere]
        rfl
      have hsize : position + (c :: part).length = position + 1 + part.length := by
        rw [List.length_cons]
        omega
      rw [hsize] at hline ⊢
      cases skip with
      | succ skip =>
          have hmoved : position + (skip + 1) = position + 1 + skip := by omega
          obtain ⟨tokens', begun', hpending, hread⟩ := ih hinner htext (hmoved ▸ h) hline hnext
          refine ⟨tokens', begun', hpending, ?_⟩
          rw [List.cons_append, readFrom, if_pos (Nat.succ_pos skip), Nat.add_sub_cancel, hread]
          simp
      | zero =>
          rw [Nat.add_zero] at h
          rw [isTextFrom, Bool.and_eq_true] at htext
          obtain ⟨effect, heffectOf, hstep⟩ := exists_effect extensions behind c (part ++ ['\n'])
          rw [hstep, Effect.all_progress, Effect.skip_progress] at htext
          have hshort := skip_le_of_isTextFrom htext.2
          have hpending := pending_step heffectOf htext.1 h hline hhere (by omega)
          obtain ⟨tokens', begun', hpending, hread⟩ := ih hinner htext.2 hpending hline hnext
          have hnoEnd : (decide (c = '\n') || decide (c = '\r')) = false := by
            simp only [SpacedDestination.isInner, Bool.and_eq_true, decide_eq_true_eq] at hc
            simp [hc]
          refine ⟨tokens', begun', hpending, ?_⟩
          rw [List.cons_append, readFrom, if_neg (Nat.lt_irrefl 0), hnoEnd, if_neg (by decide)]
          simp only [step_line extensions behind _ begun position c tail, hstep,
            effect.progress_append hfresh, Effect.skip_progress]
          rw [hread]
          simp

theorem finish_text {behind : Text} (tail : Text)
    (hescapes : countWhile (· = '\\') behind % 2 = 0)
    (hblanks : countWhile Ascii.isBlank behind = 0)
    (tokens : List Token) (begun position : Nat) :
    finish behind tokens begun position ('\n' :: tail) =
      ⟨Token.pushText begun position tokens, position + 1, tail,
        some ⟨.softBreak, .ofLength position 1⟩⟩ := by
  simp [finish, eol?, hescapes, hblanks, Span.upTo_add]

end TokenLine

structure LineTexts (source : Text) (position : Nat) (line : Text) (tokens : List Token) :
    Prop where
  filled : line ≠ []
  written : Span.slice (.upTo position (position + line.length)) source = line
  rowed : Rowed source position (position + line.length) tokens

/-- A line of text is read as texts in a row and a soft break, behind the tokens of other lines. -/
theorem TokenLine.read_text (extensions : Extensions) {line tail : Text}
    (htext : isText extensions line = true) (hone : '\n' ∉ line ∧ '\r' ∉ line)
    (hhere : source.drop position = line ++ '\n' :: tail)
    (hfresh : ∀ token ∈ before.head?, token.mark ≠ .text) :
    ∃ tokens, LineTexts source position line tokens ∧
      read extensions before position (line ++ '\n' :: tail) =
        ⟨tokens ++ before, position + line.length + 1, tail,
          some ⟨.softBreak, .ofLength (position + line.length) 1⟩⟩ := by
  simp only [isText, Bool.and_eq_true, decide_eq_true_eq, Option.any_eq_true,
    Bool.not_eq_true'] at htext
  obtain ⟨⟨hmarks, hescapes⟩, c, hlast, hblank⟩ := htext
  have hfilled : line ≠ [] := List.ne_nil_of_mem (List.mem_of_getLast? hlast)
  have hwritten : Span.slice (.upTo position (position + line.length)) source = line := by
    rw [Span.upTo_add, Span.slice_ofLength, hhere, List.take_left]
  have hlength : position + line.length ≤ source.length := by
    have hsize := congrArg List.length hhere
    simp only [List.length_drop, List.length_append, List.length_cons] at hsize
    omega
  have honLine : OnLine source position (position + line.length) :=
    ⟨hlength, by rw [hwritten]; exact hone.1⟩
  have hinner : ∀ c ∈ line, isInner c = true := by
    intro c hmem
    have hfeed : c ≠ '\n' := fun hsame => hone.1 (hsame ▸ hmem)
    have hcarriage : c ≠ '\r' := fun hsame => hone.2 (hsame ▸ hmem)
    simp [isInner, hfeed, hcarriage]
  have hstart : Pending source position position (position + 0) [] :=
    ⟨position, ⟨by simp, .nil position⟩, .inl rfl, .inr ⟨rfl, rfl⟩⟩
  obtain ⟨tokens, begun, hpending, hread⟩ :=
    readFrom_text extensions hinner hmarks hstart honLine hhere hfresh
  have hblanks : countWhile Ascii.isBlank line.reverse = 0 := by
    obtain ⟨body, rfl⟩ := List.getLast?_eq_some_iff.mp hlast
    simp [countWhile, hblank]
  refine ⟨Token.pushText begun (position + line.length) tokens,
    ⟨hfilled, hwritten, hpending.pushText honLine (Nat.le_refl _)⟩, ?_⟩
  rw [List.append_nil, finish_text tail hescapes hblanks, pushText_append hfresh] at hread
  exact hread

end Canonmark.Source
