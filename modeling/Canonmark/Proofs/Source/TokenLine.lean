import Canonmark.Proofs.Source.TokenStep
import Canonmark.Proofs.Text.Entity
import Canonmark.Proofs.Wrapped.Lines

/-!
# Lines of tokens

What a token speaks for stands on its line, so that reading a line of tokens takes just that line.
-/

namespace Canonmark.Source

open SpacedDestination (isInner)

def Inline (p : Char → Bool) : Prop := p '\n' = false ∧ p '\r' = false

theorem Inline.isInner {p : Char → Bool} (h : Inline p) {c : Char} (hc : p c = true) :
    isInner c = true := by
  have hn : c ≠ '\n' := by
    rintro rfl
    exact absurd h.1 (by simp [hc])
  have hcr : c ≠ '\r' := by
    rintro rfl
    exact absurd h.2 (by simp [hc])
  simp [SpacedDestination.isInner, hn, hcr]

theorem Inline.countWhile_le {p : Char → Bool} (h : Inline p) (text : Text) :
    countWhile p text ≤ countWhile SpacedDestination.isInner text := by
  induction text with
  | nil => exact Nat.le_refl _
  | cons c rest ih =>
      simp only [countWhile] at ih ⊢
      by_cases hc : p c = true
      · simpa [hc, h.isInner hc] using ih
      · simp [hc]

theorem countWhile_take_le (p : Char → Bool) (n : Nat) (text : Text) :
    countWhile p (text.take n) ≤ countWhile p text := by
  induction text generalizing n with
  | nil => simp
  | cons c rest ih =>
      cases n with
      | zero => simp [countWhile]
      | succ n =>
          have ih := ih n
          simp only [countWhile] at ih ⊢
          by_cases hc : p c = true
          · simpa [hc] using ih
          · simp [hc]

theorem countWhile_inner_add {n : Nat} {text : Text} (h : n ≤ countWhile isInner text) :
    countWhile isInner text = n + countWhile isInner (text.drop n) := by
  induction text generalizing n with
  | nil =>
      simp only [countWhile, List.takeWhile_nil, List.length_nil, Nat.le_zero] at h
      subst h
      rfl
  | cons c rest ih =>
      cases n with
      | zero => simp
      | succ n =>
          by_cases hc : isInner c = true
          · simp only [countWhile, List.takeWhile_cons, hc, if_true, List.length_cons] at h ih ⊢
            rw [List.drop_succ_cons, ih (Nat.le_of_succ_le_succ h)]
            omega
          · simp [countWhile, hc] at h

theorem inner_pos {c : Char} {rest : Text} (hc : isInner c = true) :
    1 ≤ countWhile isInner (c :: rest) := by
  simp [countWhile, hc]

end Canonmark.Source

namespace Canonmark.Entity

open Source (countWhile countWhile_inner_add inner_pos)
open SpacedDestination (isInner)

theorem numeric?_inner {p : Char → Bool} (hp : Source.Inline p)
    {limit n : Nat} {value : Text → Nat} {text found : Text}
    (h : numeric? p limit value text = some (n, found)) : n ≤ countWhile isInner text := by
  simp only [numeric?] at h
  obtain ⟨-, h⟩ := Option.ite_none_left_eq_some.mp h
  split at h
  · next rest hdrop =>
      cases h
      have hle : ((text.take limit).takeWhile p).length ≤ countWhile isInner text :=
        (Source.countWhile_take_le p limit text).trans (hp.countWhile_le text)
      rw [countWhile_inner_add hle, hdrop]
      exact Nat.add_le_add_left (inner_pos rfl) _
  · cases h

theorem reference?_inner {n : Nat} {text value : Text} (h : reference? text = some (n, value)) :
    n ≤ countWhile isInner text := by
  have hskip {c : Char} (hc : isInner c = true) {n : Nat} {rest : Text}
      (hle : n ≤ countWhile isInner rest) : n + 1 ≤ countWhile isInner (c :: rest) := by
    simpa [countWhile, hc] using hle
  rw [reference?.eq_def] at h
  split at h
  · obtain ⟨⟨k, found⟩, hfound, heq⟩ := Option.map_eq_some_iff.mp h
    cases heq
    exact hskip rfl (hskip rfl (numeric?_inner ⟨rfl, rfl⟩ hfound))
  · obtain ⟨⟨k, found⟩, hfound, heq⟩ := Option.map_eq_some_iff.mp h
    cases heq
    exact hskip rfl (hskip rfl (numeric?_inner ⟨rfl, rfl⟩ hfound))
  · obtain ⟨⟨k, found⟩, hfound, heq⟩ := Option.map_eq_some_iff.mp h
    cases heq
    exact hskip rfl (numeric?_inner ⟨rfl, rfl⟩ hfound)
  · simp only at h
    split at h
    · next rest hdrop =>
        obtain ⟨found, -, heq⟩ := Option.map_eq_some_iff.mp h
        cases heq
        have hname : Source.Inline Ascii.isLetterOrDigit := ⟨rfl, rfl⟩
        rw [countWhile_inner_add (hname.countWhile_le text), countWhile, hdrop]
        exact Nat.add_le_add_left (inner_pos rfl) _
    · cases h

end Canonmark.Entity

namespace Canonmark.Source.TokenLine

open SpacedDestination (isInner)

theorem isInner_of_isDelimiter {extensions : Extensions} {c : Char}
    (h : DelimiterRun.isDelimiter extensions c = true) : isInner c = true := by
  simp only [DelimiterRun.isDelimiter, Bool.or_eq_true, Bool.and_eq_true, decide_eq_true_eq] at h
  rcases h with (rfl | rfl) | ⟨rfl, -⟩ <;> rfl

theorem step_skip (extensions : Extensions) (behind : Text) (tokens : List Token)
    (begun position : Nat) {c : Char} (rest : Text) :
    (step extensions behind tokens begun position c rest).skip ≤ countWhile isInner rest := by
  have hrun {c : Char} (hc : isInner c = true) :
      countWhile (fun d => decide (d = c)) rest ≤ countWhile isInner rest := by
    have hinline : Inline fun d => decide (d = c) := by
      simp only [SpacedDestination.isInner, Bool.and_eq_true, decide_eq_true_eq] at hc
      exact ⟨by simp [Ne.symm hc.1], by simp [Ne.symm hc.2]⟩
    exact hinline.countWhile_le rest
  have htick : isInner '\x60' = true := rfl
  obtain ⟨effect, heffectOf, hsame⟩ := exists_effect extensions behind c rest
  rw [hsame, Effect.skip_progress]
  cases heffectOf with
  | escape _ hshape hmark =>
      have hinner : Inline Ascii.isPunctuation := ⟨rfl, rfl⟩
      rw [hshape]
      exact inner_pos (hinner.isInner hmark)
  | escapedTicks => simpa [Effect.skip] using hrun htick
  | unmarkedRun hdelimiter => exact hrun (isInner_of_isDelimiter hdelimiter)
  | run _ _ hdelimiter => simpa [Effect.skip] using hrun (isInner_of_isDelimiter hdelimiter)
  | ticks => simpa [Effect.skip] using hrun htick
  | image _ hshape =>
      rw [hshape]
      exact inner_pos rfl
  | entity _ hfound => simpa [Effect.skip] using Entity.reference?_inner hfound
  | _ => exact Nat.zero_le _

theorem readFrom_line (extensions : Extensions) {behind : Text} {tokens : List Token}
    {begun position skip : Nat} {text : Text} (hskip : skip ≤ countWhile isInner text) :
    (readFrom extensions behind tokens begun position skip text).position =
        position + countWhile isInner text +
          (eol? (text.drop (countWhile isInner text))).getD 0 ∧
      (readFrom extensions behind tokens begun position skip text).rest =
        (text.drop (countWhile isInner text)).drop
          ((eol? (text.drop (countWhile isInner text))).getD 0) := by
  have hfinish (behind : Text) (tokens : List Token) (begun position : Nat) (text : Text) :
      (finish behind tokens begun position text).position = position + (eol? text).getD 0 ∧
        (finish behind tokens begun position text).rest = text.drop ((eol? text).getD 0) := by
    simp only [finish]
    split <;> exact ⟨rfl, rfl⟩
  induction text generalizing behind tokens begun position skip with
  | nil => simpa [readFrom, countWhile] using hfinish behind tokens begun position []
  | cons c rest ih =>
      by_cases hc : isInner c = true
      · have hcount : countWhile isInner (c :: rest) = countWhile isInner rest + 1 := by
          simp [countWhile, hc]
        have hend : (decide (c = '\n') || decide (c = '\r')) = false := by
          simp only [SpacedDestination.isInner, Bool.and_eq_true, decide_eq_true_eq] at hc
          simp [hc]
        rw [hcount] at hskip
        rw [hcount, List.drop_succ_cons, readFrom]
        by_cases hpending : 0 < skip
        · have hnext := @ih (c :: behind) tokens begun (position + 1) (skip - 1) (by omega)
          rw [if_pos hpending, hnext.1, hnext.2]
          exact ⟨by omega, rfl⟩
        · have hnext := @ih (c :: behind)
            (step extensions behind tokens begun position c rest).tokens
            (step extensions behind tokens begun position c rest).begun (position + 1)
            (step extensions behind tokens begun position c rest).skip
            (step_skip extensions behind tokens begun position rest)
          simp only [if_neg hpending, hend]
          refine ⟨hnext.1.trans (by omega), hnext.2⟩
      · have hcount : countWhile isInner (c :: rest) = 0 := by simp [countWhile, hc]
        have hend : (decide (c = '\n') || decide (c = '\r')) = true := by
          simp only [SpacedDestination.isInner, Bool.and_eq_true, decide_eq_true_eq, not_and_or,
            not_not] at hc
          simpa using hc
        have hnone : ¬0 < skip := by omega
        simpa [hcount, readFrom, hnone, hend] using hfinish behind tokens begun position (c :: rest)

/-- Without carriage returns, reading a line takes it up to and including the line feed. -/
theorem read_line (extensions : Extensions) (tokens : List Token) (position : Nat) {text : Text}
    (hcr : '\r' ∉ text) :
    (read extensions tokens position text).position = position + lineLength text ∧
      (read extensions tokens position text).rest = text.drop (lineLength text) := by
  have hline := SpacedDestination.countWhile_inner hcr
  obtain ⟨hposition, hrest⟩ := @readFrom_line extensions [] tokens position position 0 text
    (Nat.zero_le _)
  rw [read, hposition, hrest, List.drop_drop, ← hline]
  exact ⟨by omega, rfl⟩

theorem head?_pushText {start stop : Nat} (h : start < stop) (tokens : List Token) :
    ∃ token, (Token.pushText start stop tokens).head? = some token ∧ token.span.stop = stop := by
  unfold Token.pushText
  rw [if_neg (Nat.not_le_of_lt h)]
  have hstop := Span.stop_upTo_of_le (Nat.le_of_lt h)
  split
  · next span rest =>
      split
      · next hadjacent =>
          have hspan := span.start_le_stop
          exact ⟨_, rfl, Span.stop_upTo_of_le (by omega)⟩
      · exact ⟨_, rfl, hstop⟩
  · exact ⟨_, rfl, hstop⟩

def Reaches (tokens : List Token) (begun stop : Nat) : Prop :=
  begun < stop ∨ begun = stop ∧ ∀ token ∈ tokens.head?, token.span.stop = stop

theorem reaches_mark (tokens : List Token) (begun position : Nat) (content : Mark)
    {offset size : Nat} (hsize : 0 < offset + size) :
    Reaches (mark tokens begun position content offset size).tokens
      (mark tokens begun position content offset size).begun
      (position + 1 + (mark tokens begun position content offset size).skip) := by
  refine .inr ⟨?_, ?_⟩
  · simp only [mark]
    omega
  · simp only [mark, List.head?_cons, Option.mem_some_iff, forall_eq', Span.stop_ofLength]
    omega

theorem reaches_step (extensions : Extensions) (behind : Text) {tokens : List Token}
    {begun position : Nat} (h : begun ≤ position) (c : Char) (rest : Text) :
    Reaches (step extensions behind tokens begun position c rest).tokens
      (step extensions behind tokens begun position c rest).begun
      (position + 1 + (step extensions behind tokens begun position c rest).skip) := by
  obtain ⟨effect, heffectOf, hsame⟩ := exists_effect extensions behind c rest
  rw [hsame]
  cases heffectOf with
  | plain => exact .inl (by simp only [Effect.progress]; omega)
  | escape => exact .inl (by simp only [Effect.progress]; omega)
  | unmarkedRun => exact .inl (by simp only [Effect.progress]; omega)
  | _ => exact reaches_mark tokens begun position _ (by omega)

/-- What a token does not look at: the lines behind its own. -/
theorem step_line (extensions : Extensions) (behind : Text) (tokens : List Token)
    (begun position : Nat) (c : Char) {rest : Text} (tail : Text) :
    step extensions behind tokens begun position c (rest ++ '\n' :: tail) =
      step extensions behind tokens begun position c (rest ++ ['\n']) := by
  have hcount {p : Char → Bool} (hp : p '\n' = false) (tail : Text) :
      countWhile p (rest ++ '\n' :: tail) = countWhile p rest :=
    congrArg List.length (Text.takeWhile_line hp rest tail)
  have hhead : (rest ++ '\n' :: tail).head? = (rest ++ ['\n']).head? := by cases rest <;> rfl
  have hdrop {n : Nat} (hn : n ≤ rest.length) :
      ((rest ++ '\n' :: tail).drop n).head? = ((rest ++ ['\n']).drop n).head? := by
    rw [List.drop_append_of_le_length hn, List.drop_append_of_le_length hn]
    cases rest.drop n <;> rfl
  have hentity : Entity.reference? (rest ++ '\n' :: tail) = Entity.reference? (rest ++ ['\n']) := by
    rw [Entity.reference?_append (by simp; decide), Entity.reference?_append (by simp; decide)]
  have htick : countWhile (fun d => decide (d = '\x60')) (rest ++ '\n' :: tail) =
      countWhile (fun d => decide (d = '\x60')) (rest ++ ['\n']) := by
    rw [hcount rfl, hcount rfl]
  unfold step
  by_cases hback : c = '\\'
  · rw [if_pos hback, if_pos hback, htick]
    cases rest <;> rfl
  by_cases hdelimiter : DelimiterRun.isDelimiter extensions c = true
  · have hfeed : decide ('\n' = c) = false := by
      refine decide_eq_false ?_
      rintro rfl
      simp [DelimiterRun.isDelimiter] at hdelimiter
    have hrun (tail : Text) := @hcount (fun d => decide (d = c)) hfeed tail
    have hle : countWhile (fun d => decide (d = c)) rest ≤ rest.length :=
      (List.takeWhile_sublist _).length_le
    simp only [hback, hdelimiter, if_false, if_true, hrun, Nat.add_sub_cancel, hdrop hle]
  · simp only [hback, hdelimiter, if_false, hhead, htick, hentity]
    simp

/--
A line without line feeds is read up to its end, and the lines behind it are not looked at before.
-/
theorem readFrom_end (extensions : Extensions) {line : Text} (hline : ∀ c ∈ line, isInner c = true)
    (behind : Text) {tokens : List Token} {begun position skip : Nat}
    (hreaches : Reaches tokens begun (position + skip)) (hskip : skip ≤ line.length) :
    ∃ tokens' begun', Reaches tokens' begun' (position + line.length) ∧ ∀ tail,
      readFrom extensions behind tokens begun position skip (line ++ '\n' :: tail) =
        finish (line.reverse ++ behind) tokens' begun' (position + line.length) ('\n' :: tail) := by
  induction line generalizing behind tokens begun position skip with
  | nil =>
      obtain rfl : skip = 0 := by simpa using hskip
      exact ⟨tokens, begun, hreaches, fun tail => rfl⟩
  | cons c line ih =>
      obtain ⟨hc, hline⟩ := List.forall_mem_cons.mp hline
      have hinner : (decide (c = '\n') || decide (c = '\r')) = false := by
        simp only [SpacedDestination.isInner, Bool.and_eq_true, decide_eq_true_eq] at hc
        simp [hc]
      have hposition : position + (c :: line).length = position + 1 + line.length := by
        simp only [List.length_cons]
        omega
      rw [hposition]
      by_cases hpending : 0 < skip
      · obtain ⟨tokens', begun', hreaches', hread⟩ := @ih hline (c :: behind) tokens begun
          (position + 1) (skip - 1)
          (by rwa [show position + 1 + (skip - 1) = position + skip by omega])
          (by simp only [List.length_cons] at hskip; omega)
        refine ⟨tokens', begun', hreaches', fun tail => ?_⟩
        rw [List.cons_append, readFrom, if_pos hpending, hread tail]
        simp
      · obtain rfl : skip = 0 := by omega
        have hbegun : begun ≤ position := by
          rcases hreaches with h | ⟨h, -⟩ <;> omega
        have hlength : (step extensions behind tokens begun position c (line ++ ['\n'])).skip ≤
            line.length := by
          refine (step_skip extensions behind tokens begun position _).trans ?_
          rw [countWhile, Text.takeWhile_line rfl]
          exact (List.takeWhile_sublist _).length_le
        obtain ⟨tokens', begun', hreaches', hread⟩ := ih hline (c :: behind)
          (reaches_step extensions behind hbegun c (line ++ ['\n'])) hlength
        refine ⟨tokens', begun', hreaches', fun tail => ?_⟩
        rw [List.cons_append, readFrom, if_neg hpending, hinner, if_neg (by simp)]
        simp only [step_line extensions behind tokens begun position c tail]
        rw [hread tail]
        simp

end Canonmark.Source.TokenLine
