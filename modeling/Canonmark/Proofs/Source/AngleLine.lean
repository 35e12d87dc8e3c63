import Canonmark.Proofs.Source.AutolinkStarts
import Canonmark.Proofs.Source.TokenLine
import Canonmark.Source.Inline
import Canonmark.Source.LeafReader

/-!
# Lines behind an angle bracket

A line that begins with an angle bracket is read into that bracket and the tokens of the rest, the
first of which starts right behind it. If the bracket and the rest are an autolink, the tokens of
the rest are dropped, and the link is all of the line.
-/

namespace Canonmark.Source

open SpacedDestination (isInner)

/-- Tokens up to `stop`, latest first, the earliest of which starts at `start`. -/
structure Spread (start stop : Nat) (tokens : List Token) : Prop where
  starts : ∀ token ∈ tokens.getLast?, token.span.start = start
  stops : ∀ token ∈ tokens, token.span.stop ≤ stop

namespace Spread

variable {start stop position : Nat} {tokens : List Token}

theorem nil (start stop : Nat) : Spread start stop [] := ⟨by simp, by simp⟩

theorem widen (h : Spread start position tokens) (hle : position ≤ stop) :
    Spread start stop tokens :=
  ⟨h.starts, fun token hmem => Nat.le_trans (h.stops token hmem) hle⟩

theorem cons (h : Spread start stop tokens) {token : Token}
    (halone : tokens = [] → token.span.start = start) (hle : token.span.stop ≤ stop) :
    Spread start stop (token :: tokens) := by
  refine ⟨fun last hmem => ?_, List.forall_mem_cons.mpr ⟨hle, h.stops⟩⟩
  cases tokens with
  | nil =>
      obtain rfl : token = last := by simpa using hmem
      exact halone rfl
  | cons other tokens => exact h.starts last (by simpa [List.getLast?_cons_cons] using hmem)

theorem tail {token : Token} (h : Spread start stop (token :: tokens)) :
    Spread start stop tokens := by
  refine ⟨fun last hmem => ?_, fun other hmem => h.stops other (List.mem_cons_of_mem _ hmem)⟩
  cases tokens with
  | nil => cases hmem
  | cons other tokens => exact h.starts last (by simpa [List.getLast?_cons_cons] using hmem)

theorem stretch {token : Token} (h : Spread start stop (token :: tokens)) (mark : Mark)
    (hle : stop ≤ position) :
    Spread start position (⟨mark, .upTo token.span.start position⟩ :: tokens) := by
  have hstop := h.stops token List.mem_cons_self
  have hspan := token.span.start_le_stop
  refine (h.tail.widen hle).cons ?_ (Nat.max_le.mpr ⟨by omega, Nat.le_refl position⟩)
  rintro rfl
  exact h.starts token rfl

end Spread

/--
Tokens up to `stop`, latest first, behind a first one. Text is pending from `begun` on, at first
right behind it.
-/
def Trails (first : Token) (start begun stop : Nat) (tokens : List Token) : Prop :=
  ∃ later, tokens = later ++ [first] ∧ (later = [] → begun = start) ∧ Spread start stop later

namespace Trails

variable {first : Token} {start begun stop position : Nat} {tokens : List Token}

theorem widen (h : Trails first start begun position tokens) (hle : position ≤ stop) :
    Trails first start begun stop tokens := by
  obtain ⟨later, rfl, hnone, hspread⟩ := h
  exact ⟨later, rfl, hnone, hspread.widen hle⟩

theorem pushText (h : Trails first start begun position tokens) (hnotText : first.mark ≠ .text) :
    ∃ later, Token.pushText begun position tokens = later ++ [first] ∧
      (later = [] → position ≤ start) ∧ Spread start position later := by
  obtain ⟨later, rfl, hnone, hspread⟩ := h
  unfold Token.pushText
  split
  · next hle => exact ⟨later, rfl, fun hempty => hnone hempty ▸ hle, hspread⟩
  have hnew : ∃ later', ⟨.text, .upTo begun position⟩ :: (later ++ [first]) = later' ++ [first] ∧
      (later' = [] → position ≤ start) ∧ Spread start position later' :=
    ⟨⟨.text, .upTo begun position⟩ :: later, rfl, by simp, hspread.cons hnone
    (by simp only [Span.stop_upTo]; omega)⟩
  split
  · next span behind hsame =>
      split
      · cases later with
        | nil =>
            obtain ⟨rfl, -⟩ := List.cons.inj hsame
            exact absurd rfl hnotText
        | cons token later =>
            obtain ⟨rfl, rfl⟩ := List.cons.inj hsame
            exact ⟨_ :: later, rfl, by simp, hspread.stretch .text (Nat.le_refl _)⟩
      · exact hnew
  · exact hnew

end Trails

namespace TokenLine

variable {first : Token} {start begun position : Nat} {tokens : List Token}

theorem trails_mark (h : Trails first start begun position tokens) (hnotText : first.mark ≠ .text)
    (hle : start ≤ position) (content : Mark) {offset : Nat} (size : Nat)
    (hnear : offset = 0 ∨ start < position) :
    Trails first start (mark tokens begun position content offset size).begun
      (position + 1 + (mark tokens begun position content offset size).skip)
      (mark tokens begun position content offset size).tokens := by
  obtain ⟨later, hpushed, hempty, hspread⟩ := h.pushText hnotText
  refine ⟨⟨content, .ofLength (position + offset) size⟩ :: later, ?_, by simp, ?_⟩
  · simp only [mark, hpushed, List.cons_append]
  · refine (hspread.widen ?_).cons (fun hnone => ?_) ?_
    · omega
    · have hbefore := hempty hnone
      show position + offset = start
      omega
    · simp only [mark, Span.stop_ofLength]
      omega

theorem trails_step (extensions : Extensions) (behind : Text)
    (h : Trails first start begun position tokens) (hnotText : first.mark ≠ .text)
    (hle : start ≤ position) {c : Char} (hback : c = '\\' → start < position) (rest : Text) :
    Trails first start (step extensions behind tokens begun position c rest).begun
      (position + 1 + (step extensions behind tokens begun position c rest).skip)
      (step extensions behind tokens begun position c rest).tokens := by
  have hplain (skip : Nat) : Trails first start begun (position + 1 + skip) tokens :=
    h.widen (by omega)
  have hmarked (content : Mark) (size : Nat) := trails_mark h hnotText hle content size (.inl rfl)
  obtain ⟨effect, heffectOf, hsame⟩ := exists_effect extensions behind c rest
  rw [hsame]
  cases heffectOf with
  | plain => exact hplain 0
  | escape hisBack =>
      obtain ⟨later, hpushed, hempty, hspread⟩ := h.pushText hnotText
      refine ⟨later, hpushed, fun hnone => ?_, hspread.widen (by omega)⟩
      have hbefore := hempty hnone
      have hafter := hback hisBack
      omega
  | escapedTicks hisBack => exact trails_mark h hnotText hle _ _ (.inr (hback hisBack))
  | unmarkedRun => exact hplain _
  | _ => exact hmarked _ _

/-- A line that goes on behind a bracket is read into tokens behind that of the bracket. -/
theorem trails_readFrom (extensions : Extensions) {line : Text}
    (hinner : ∀ c ∈ line, isInner c = true) (behind : Text) {skip : Nat} (tail : Text)
    (h : Trails first start begun (position + skip) tokens) (hnotText : first.mark ≠ .text)
    (hle : start ≤ position) (hback : line.head? = some '\\' → 0 < skip ∨ start < position)
    (hwithin : skip ≤ line.length) :
    ∃ tokens' begun', Trails first start begun' (position + line.length) tokens' ∧
      readFrom extensions behind tokens begun position skip (line ++ '\n' :: tail) =
        finish (line.reverse ++ behind) tokens' begun' (position + line.length) ('\n' :: tail) := by
  induction line generalizing behind tokens begun position skip with
  | nil =>
      obtain rfl : skip = 0 := by simpa using hwithin
      exact ⟨tokens, begun, h, rfl⟩
  | cons c line ih =>
      obtain ⟨hisInner, hinner⟩ := List.forall_mem_cons.mp hinner
      have hgoesOn : (decide (c = '\n') || decide (c = '\r')) = false := by
        simp only [SpacedDestination.isInner, Bool.and_eq_true, decide_eq_true_eq] at hisInner
        simp [hisInner]
      have hfurther : position + (c :: line).length = position + 1 + line.length := by
        rw [List.length_cons]
        omega
      have hwhole : (c :: line).reverse ++ behind = line.reverse ++ c :: behind := by simp
      rw [hfurther, hwhole, List.cons_append, readFrom]
      have hnext : line.head? = some '\\' → ∀ skip, 0 < skip ∨ start < position + 1 :=
        fun _ _ => .inr (Nat.lt_succ_of_le hle)
      by_cases hpending : 0 < skip
      · rw [if_pos hpending]
        refine ih hinner (c :: behind) ?_ (Nat.le_succ_of_le hle) (hnext · _) ?_
        · rwa [show position + 1 + (skip - 1) = position + skip by omega]
        · rw [List.length_cons] at hwithin
          omega
      · obtain rfl : skip = 0 := by omega
        rw [if_neg hpending, hgoesOn, if_neg (by decide)]
        refine ih hinner (c :: behind) ?_ (Nat.le_succ_of_le hle) (hnext · _) ?_
        · refine trails_step extensions behind h hnotText hle (fun hisBack => ?_) _
          exact (hback (by rw [hisBack]; rfl)).resolve_left hpending
        · refine (step_skip extensions behind tokens begun position _).trans ?_
          rw [countWhile, Text.takeWhile_line rfl]
          exact (List.takeWhile_sublist _).length_le

theorem finish_bracket {behind tail : Text} {tokens : List Token} {begun position : Nat}
    (hlast : behind.head? = some '>') :
    LeafReader.pushBackslash (finish behind tokens begun position ('\n' :: tail)) =
      Token.pushText begun position tokens := by
  obtain ⟨behind, rfl⟩ := List.head?_eq_some_iff.mp hlast
  have hnone {p : Char → Bool} (hother : p '>' = false) : countWhile p ('>' :: behind) = 0 := by
    rw [countWhile, List.takeWhile_cons_of_neg (by simp [hother])]
    rfl
  have hbackslashes := @hnone (fun c => decide (c = '\\')) rfl
  have hblanks := @hnone Ascii.isBlank rfl
  simp only [finish, hbackslashes, hblanks]
  rfl

/-- A bracket at the front of a line is its first token, and the next one is right behind it. -/
theorem read_angle (extensions : Extensions) {inner : Text} (hone : ∀ c ∈ inner, isInner c = true)
    (hback : inner.head? ≠ some '\\') (hends : inner.getLast? = some '>') (tail : Text) :
    ∃ next more, (LeafReader.pushBackslash
        (read extensions [] 0 ('<' :: inner ++ '\n' :: tail))).reverse =
          ⟨.angle, .ofLength 0 1⟩ :: next :: more ∧
      next.span.start = 1 ∧ ∀ token ∈ next :: more, token.span.stop ≤ inner.length + 1 := by
  have hopened : Trails ⟨.angle, .ofLength 0 1⟩ 1 1 (1 + 0) [⟨.angle, .ofLength 0 1⟩] :=
    ⟨[], rfl, fun _ => rfl, .nil 1 1⟩
  obtain ⟨tokens, begun, htrails, hread⟩ := trails_readFrom extensions hone ['<'] tail hopened
    (by decide) (Nat.le_refl 1) (fun hisBack => absurd hisBack hback) (Nat.zero_le _)
  have hfront : step extensions [] [] 0 0 '<' (inner ++ '\n' :: tail) =
      ⟨[⟨.angle, .ofLength 0 1⟩], 1, 0⟩ := by
    have hnotBack : (inner ++ '\n' :: tail).head? ≠ some '\\' := by
      cases inner with
      | nil => cases hends
      | cons c rest => exact hback
    have hnotDelimiter : DelimiterRun.isDelimiter extensions '<' = false := rfl
    unfold step
    simp only [hnotDelimiter, hnotBack]
    rfl
  have hwhole : read extensions [] 0 ('<' :: inner ++ '\n' :: tail) =
      finish (inner.reverse ++ ['<']) tokens begun (1 + inner.length) ('\n' :: tail) := by
    rw [← hread, read, List.cons_append, readFrom, if_neg (Nat.lt_irrefl 0)]
    simp only [hfront]
    rfl
  obtain ⟨later, hpushed, hsome, hspread⟩ := htrails.pushText (by decide)
  have hlast : (inner.reverse ++ ['<']).head? = .some '>' := by
    rw [List.head?_append, List.head?_reverse, hends]
    rfl
  have hfilled : 0 < inner.length := List.length_pos_of_mem (List.mem_of_getLast? hends)
  have hsome : later ≠ [] := fun hnone => by
    have := hsome hnone
    omega
  obtain ⟨next, more, horder⟩ := List.exists_cons_of_ne_nil (List.reverse_ne_nil_iff.mpr hsome)
  rw [hwhole, finish_bracket hlast, hpushed, List.reverse_append, horder]
  refine ⟨next, more, rfl, hspread.starts next ?_, fun token hmem => ?_⟩
  · rw [List.getLast?_eq_head?_reverse, horder]
    rfl
  · rw [← horder, List.mem_reverse] at hmem
    rw [Nat.add_comm]
    exact hspread.stops token hmem

end TokenLine

namespace Autolink

inductive Links : LinkForm → Text → Prop
  | uri {target : Text} (huri : IsUri target) : Links .autolink target
  | mail {target : Text} (haddress : IsAddress target) : Links .mail target

theorem Links.notMem {form : LinkForm} {target : Text} (h : Links form target) {c : Char}
    (hother : isLocal c = false) (hnotPath : isPathChar c = false) : c ∉ target := by
  cases h with
  | uri huri => exact huri.notMem hother hnotPath
  | mail haddress =>
      refine haddress.notMem hother ?_
      rintro rfl
      exact absurd hnotPath (by decide)

theorem Links.angle? {form : LinkForm} {target : Text} (h : Links form target)
    {context : InlineContext} {span next : Span} {behind : Text}
    (hhere : context.textAt next.start = target ++ '>' :: behind) :
    angle? context span next =
      some (.group (.link false form target []) (.upTo span.start (next.start + target.length + 1))
        [.atom (.text (context.slice (.upTo (span.start + 1) (next.start + target.length))))
          (.upTo (span.start + 1) (next.start + target.length))],
          next.start + target.length + 1) := by
  cases h with
  | uri huri =>
      simp only [Source.angle?, hhere, uri?_of_isUri huri]
      rfl
  | mail haddress =>
      have hnoUri := (haddress.prefixed ('>' :: behind)).uri?_none
      simp only [Source.angle?, hhere, hnoUri, address?_of_isAddress haddress]
      rfl

end Autolink

theorem cutTokens_nil {stop : Nat} {tokens : List Token}
    (h : ∀ token ∈ tokens, token.span.stop ≤ stop) : cutTokens stop tokens = [] := by
  have hnone : LinkTail.tokensFrom stop tokens = [] :=
    List.dropWhile_eq_nil_iff.mpr fun token hmem => decide_eq_true (h token hmem)
  rw [cutTokens, hnone]

/-- A bracket and the text behind it are one link if that reaches to the last token. -/
theorem ofTokens_angle {form : LinkForm} {target behind : Text} (h : Autolink.Links form target)
    {context : InlineContext} {next : Token} {more : List Token} (budget : Nat)
    (hhere : context.textAt 1 = target ++ '>' :: behind) (hstarts : next.span.start = 1)
    (hstops : ∀ token ∈ next :: more, token.span.stop ≤ target.length + 2) :
    (InlineNode.ofTokens context budget (⟨.angle, .ofLength 0 1⟩ :: next :: more)).1 =
      [.group (.link false form target []) (.upTo 0 (target.length + 2))
        [.atom (.text (context.slice (.upTo 1 (target.length + 1))))
        (.upTo 1 (target.length + 1))]] := by
  have hfound := @Autolink.Links.angle? _ _ h context (.ofLength 0 1) next.span behind
      (hstarts ▸ hhere)
  have hstop : next.span.start + target.length + 1 = target.length + 2 := by omega
  have hinner : next.span.start + target.length = target.length + 1 := by omega
  rw [hstop, hinner] at hfound
  have hsettled : settleAll context ((next :: more).length + 2) { budget := budget }
      (⟨.angle, .ofLength 0 1⟩ :: next :: more) =
        { nodes := [.group (.link false form target []) (.upTo 0 (target.length + 2))
            [.atom (.text (context.slice (.upTo 1 (target.length + 1))))
            (.upTo 1 (target.length + 1))]],
          budget := budget } := by
    rw [settleAll, settle]
    simp only [hfound, cutTokens_nil hstops]
    rfl
  simp only [InlineNode.ofTokens, List.length_cons] at hsettled ⊢
  rw [hsettled]
  rfl

end Canonmark.Source
