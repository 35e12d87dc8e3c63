import Canonmark.Proofs.Source.Runs
import Canonmark.Source.LeafReader

/-!
# Runs of a line

The reader of a line finds each run of delimiters where it stands. Behind the last token of a
line, if that is a run, there is nothing but blanks and what ends the line.
-/

namespace Canonmark.Source

open SpacedDestination (isInner)

/-- Tokens of a block up to `stop`, latest first, behind a check box if there is one. -/
def Gathered (source : Text) (task : Option Token) (base stop : Nat) (tokens : List Token) : Prop :=
  ∃ rest, tokens = rest ++ task.toList ∧ Ahead source base base stop rest.reverse

/-- No link or tag ends behind the start of the latest token and before `begun`, if it is a run. -/
def Unclosed (source : Text) (begun : Nat) (tokens : List Token) : Prop :=
  ∀ token ∈ tokens.head?, token.run? ≠ none → ∀ i, token.span.start ≤ i → i < begun → Clear source i

section

variable {source : Text} {task : Option Token} {base start stop begun position : Nat}
  {tokens : List Token}

theorem Ahead.concat (h : Ahead source base start position tokens) {token : Token}
    (hsolid : token.Solid source base) (hruns : Runs source position stop [token]) :
    Ahead source base start stop (tokens ++ [token]) := by
  refine ⟨h.runs.append hruns, fun other hmem => ?_⟩
  rcases List.mem_append.mp hmem with hmem | hmem
  · exact h.solid other hmem
  · rwa [List.mem_singleton.mp hmem]

namespace Gathered

theorem widen (h : Gathered source task base position tokens) (hle : position ≤ stop) :
    Gathered source task base stop tokens := by
  obtain ⟨rest, rfl, hahead⟩ := h
  exact ⟨rest, rfl, hahead.runs.widen (Nat.le_refl _) hle, hahead.solid⟩

theorem push (h : Gathered source task base position tokens) {token : Token}
    (hsolid : token.Solid source base) (hruns : Runs source position stop [token]) :
    Gathered source task base stop (token :: tokens) := by
  obtain ⟨rest, rfl, hahead⟩ := h
  refine ⟨token :: rest, rfl, ?_⟩
  rw [List.reverse_cons]
  exact hahead.concat hsolid hruns

theorem pushPlain (h : Gathered source task base position tokens) {token : Token}
    (hplain : token.run? = none) (hfirst : base ≤ token.span.start) :
    Gathered source task base position (token :: tokens) :=
  h.push ⟨hfirst, fun hsome => absurd hplain hsome⟩ (.other hplain (.nil (Nat.le_refl _)))

/-- Text is added to the text before it; it is never added to a check box. -/
theorem pushText (h : Gathered source task base position tokens)
    (htask : ∀ token ∈ task, ∃ checked, token.mark = .task checked) (hle : base ≤ start)
    (stop : Nat) :
    Gathered source task base position (Token.pushText start stop tokens) := by
  unfold Token.pushText
  split
  · exact h
  next hlt =>
  have hnew : Gathered source task base position (⟨.text, .upTo start stop⟩ :: tokens) :=
    h.pushPlain rfl hle
  split
  · next span behind =>
      split
      · obtain ⟨rest, hwhole, hahead⟩ := h
        cases rest with
        | nil =>
            obtain ⟨checked, hmark⟩ := htask ⟨.text, span⟩ (by
              cases task with
              | none => cases hwhole
              | some token =>
                  cases hwhole
                  rfl)
            cases hmark
        | cons token rest =>
            cases hwhole
            rw [List.reverse_cons] at hahead
            have hsolid := hahead.solid ⟨.text, span⟩ (by simp)
            have hbefore := hahead.sublist (List.sublist_append_left rest.reverse _)
            exact Gathered.pushPlain ⟨rest, rfl, hbefore⟩ rfl hsolid.start
      · exact hnew
  · exact hnew

end Gathered

theorem unclosed_of_plain {token : Token} (hplain : token.run? = none) :
    Unclosed source begun (token :: tokens) := by
  intro other hmem hrun
  obtain rfl : token = other := by simpa using hmem
  exact absurd hplain hrun

theorem unclosed_pushText (h : Unclosed source begun tokens)
    (hclear : ∀ i, position ≤ i → i < stop → Clear source i) :
    Unclosed source stop (Token.pushText begun position tokens) := by
  unfold Token.pushText
  split
  · intro token hmem hrun i hfirst hlast
    by_cases hbefore : i < begun
    · exact h token hmem hrun i hfirst hbefore
    · exact hclear i (by omega) hlast
  · split
    · split
      · exact unclosed_of_plain rfl
      · exact unclosed_of_plain rfl
    · exact unclosed_of_plain rfl

end

theorem exists_getElem?_of_lt_countWhile {p : Char → Bool} {text : Text} {i : Nat}
    (h : i < countWhile p text) : ∃ c, text[i]? = some c ∧ p c = true := by
  obtain ⟨c, hhere⟩ : ∃ c, (text.takeWhile p)[i]? = some c := ⟨_, List.getElem?_eq_getElem h⟩
  refine ⟨c, ?_, List.mem_takeWhile_imp (List.mem_of_getElem? hhere)⟩
  rw [← List.takeWhile_append_dropWhile (p := p) (l := text), List.getElem?_append_left h]
  exact hhere

namespace TokenLine

/-- The tokens behind a step, and where the text that is pending among them began. -/
structure Stepped (source : Text) (task : Option Token) (base stop : Nat) (tokens : List Token)
    (begun : Nat) : Prop where
  gathered : Gathered source task base stop tokens
  le : base ≤ begun
  unclosed : Unclosed source begun tokens

section

variable {source : Text} {task : Option Token} {base position begun : Nat} {tokens : List Token}
  {c : Char} {rest : Text}

theorem standsAt_run {extensions : Extensions} (hhere : source.drop position = c :: rest)
    (hdelimiter : DelimiterRun.isDelimiter extensions c = true) (opens closes : Bool) :
    Run.StandsAt source position ⟨c, countWhile (· = c) rest + 1, opens, closes⟩ := by
  refine ⟨?_, Nat.succ_pos _, fun i hlt => ?_⟩
  · simp only [DelimiterRun.isDelimiter, Bool.or_eq_true, Bool.and_eq_true,
      decide_eq_true_eq] at hdelimiter
    rcases hdelimiter with (hstar | hlow) | ⟨htilde, -⟩
    · exact .inl hstar
    · exact .inr (.inl hlow)
    · exact .inr (.inr htilde)
  · rw [← List.getElem?_drop, hhere]
    cases i with
    | zero => rfl
    | succ i =>
        obtain ⟨d, hfound, hsame⟩ := exists_getElem?_of_lt_countWhile (Nat.lt_of_succ_lt_succ hlt)
        rw [List.getElem?_cons_succ, hfound]
        simpa using hsame

theorem clear_of_drop (hhere : source.drop position = c :: rest) (hnoParen : c ≠ ')')
    (hnoAngle : c ≠ '>') : Clear source position := by
  have hfirst : source[position]? = some c := by
    rw [← Nat.add_zero position, ← List.getElem?_drop, hhere]
    rfl
  rw [Clear, hfirst]
  exact ⟨by simpa using hnoParen, by simpa using hnoAngle⟩

variable (htask : ∀ token ∈ task, ∃ checked, token.mark = .task checked)
include htask

theorem stepped_mark (h : Stepped source task base position tokens begun) (hle : base ≤ position)
    {content : Mark} (hplain' : ∀ span, (Token.mk content span).run? = none) (offset size : Nat) :
    Stepped source task base (position + 1 + (mark tokens begun position content offset size).skip)
      (mark tokens begun position content offset size).tokens
      (mark tokens begun position content offset size).begun := by
  have hfirst : base ≤ position + offset := Nat.le_trans hle (Nat.le_add_right _ _)
  have hlast : base ≤ position + offset + size := Nat.le_trans hfirst (Nat.le_add_right _ _)
  have hplain := hplain' (.ofLength (position + offset) size)
  have hpushed := (h.gathered.pushText htask h.le position).pushPlain hplain hfirst
  exact ⟨hpushed.widen (by omega), hlast, unclosed_of_plain hplain⟩

theorem stepped_run (h : Stepped source task base position tokens begun) (hle : base ≤ position)
    {size : Nat} {opens closes : Bool}
    (hstands : Run.StandsAt source position ⟨c, size, opens, closes⟩) :
    Stepped source task base
      (position + 1 + (mark tokens begun position (.delimiters c size opens closes) 0 size).skip)
      (mark tokens begun position (.delimiters c size opens closes) 0 size).tokens
      (mark tokens begun position (.delimiters c size opens closes) 0 size).begun := by
  have hclear (i : Nat) (hfirst : position ≤ i) (hlast : i < position + size) : Clear source i := by
    have hhere := hstands.stands (i - position) (show i - position < size by omega)
    rw [Nat.add_sub_cancel' hfirst] at hhere
    have hchar : c = '*' ∨ c = '_' ∨ c = '~' := hstands.char
    rw [Clear, hhere]
    rcases hchar with rfl | rfl | rfl <;> simp
  have hsolid : Token.Solid source base
      ⟨.delimiters c size opens closes, .ofLength (position + 0) size⟩ :=
    ⟨hle, fun _ => hclear⟩
  have hruns : Runs source position (position + size)
      [⟨.delimiters c size opens closes, .ofLength (position + 0) size⟩] :=
    .run (Nat.le_refl _) rfl hstands (.nil (Nat.le_refl _))
  have hpushed := (h.gathered.pushText htask h.le position).push hsolid hruns
  have hpos := hstands.pos
  refine ⟨hpushed.widen ?_, hsolid.stop, ?_⟩
  · simp only [mark]
    have hsize_pos : 0 < size := hpos
    omega
  · intro token hmem _
    obtain rfl := Option.some.inj hmem
    exact hclear

theorem stepped_step (extensions : Extensions) (behind : Text)
    (hhere : source.drop position = c :: rest)
    (h : Stepped source task base position tokens begun) (hle : base ≤ position) :
    Stepped source task base
      (position + 1 + (step extensions behind tokens begun position c rest).skip)
      (step extensions behind tokens begun position c rest).tokens
      (step extensions behind tokens begun position c rest).begun := by
  have hplain (skip : Nat) : Stepped source task base (position + 1 + skip) tokens begun :=
    ⟨h.gathered.widen (by omega), h.le, h.unclosed⟩
  have hmarked {content : Mark} (hplain : ∀ span, (Token.mk content span).run? = none)
      (offset size : Nat) := stepped_mark htask h hle hplain offset size
  obtain ⟨effect, heffectOf, hsame⟩ := exists_effect extensions behind c rest
  rw [hsame]
  cases heffectOf with
  | plain => exact hplain 0
  | escape hback =>
      subst hback
      refine ⟨(h.gathered.pushText htask h.le position).widen (by omega),
        by simp only [Effect.progress]; omega, ?_⟩
      refine unclosed_pushText h.unclosed fun i hfirst hlast => ?_
      have hupto : i < position + 1 := hlast
      obtain rfl : i = position := by omega
      exact clear_of_drop hhere (by decide) (by decide)
  | unmarkedRun => exact hplain _
  | run opens closes hdelimiter =>
      exact stepped_run htask h hle (standsAt_run hhere hdelimiter opens closes)
  | _ => exact hmarked (fun _ => rfl) _ _

end

/-! ## Lines -/

structure Behind (source : Text) (base position : Nat) (behind : Text) : Prop where
  le : base + behind.length ≤ position
  stands : ∀ i < behind.length, source[position - (i + 1)]? = behind[i]?

structure Tokened (source : Text) (task : Option Token) (base : Nat) (line : TokenLine) :
    Prop where
  gathered : Gathered source task base line.position line.tokens
  unclosed : Unclosed source line.position line.tokens
  lineBreak : ∀ token ∈ line.lineBreak,
    token.run? = none ∧ base ≤ token.span.start
  ended : line.lineBreak = none → line.rest = []

section

variable {source : Text} {task : Option Token} {base position begun : Nat} {tokens : List Token}
  {behind text : Text}

theorem Behind.cons {c : Char} {rest : Text} (h : Behind source base position behind)
    (hhere : source.drop position = c :: rest) :
    Behind source base (position + 1) (c :: behind) := by
  refine ⟨by have := h.le; simp only [List.length_cons]; omega, fun i hlt => ?_⟩
  cases i with
  | zero =>
      rw [Nat.zero_add, Nat.add_sub_cancel, ← Nat.add_zero position, ← List.getElem?_drop, hhere]
      rfl
  | succ i =>
      rw [Nat.add_sub_add_right, List.getElem?_cons_succ]
      exact h.stands i (Nat.lt_of_succ_lt_succ hlt)

theorem clear_of_behind (h : Behind source base position behind) {p : Char → Bool}
    (hnoParen : p ')' = false) (hnoAngle : p '>' = false) {i : Nat}
    (hfirst : position - countWhile p behind ≤ i) (hlast : i < position) : Clear source i := by
  have hwithin : countWhile p behind ≤ behind.length := (List.takeWhile_sublist p).length_le
  have hle := h.le
  obtain ⟨c, hfound, hblank⟩ :=
    exists_getElem?_of_lt_countWhile (show position - 1 - i < countWhile p behind by omega)
  have hhere := h.stands (position - 1 - i) (by omega)
  rw [show position - (position - 1 - i + 1) = i by omega, hfound] at hhere
  rw [Clear, hhere]
  constructor
  · rintro ⟨rfl⟩
    rw [hnoParen] at hblank
    cases hblank
  · rintro ⟨rfl⟩
    rw [hnoAngle] at hblank
    cases hblank

theorem clear_eol (hhere : source.drop position = text) {i : Nat} (hfirst : position ≤ i)
    (hlast : i < position + (eol? text).getD 0) : Clear source i := by
  obtain ⟨j, rfl⟩ := Nat.exists_eq_add_of_le hfirst
  rw [Clear, ← List.getElem?_drop, hhere]
  unfold eol? at hlast
  split at hlast
  · exact absurd hlast (Nat.not_lt.mpr hfirst)
  · obtain rfl : j = 0 := by simpa using hlast
    simp
  · have : j = 0 ∨ j = 1 := by
      simp at hlast
      omega
    rcases this with rfl | rfl <;> simp
  · obtain rfl : j = 0 := by simpa using hlast
    simp
  · exact absurd hlast (Nat.not_lt.mpr hfirst)

theorem tokened_finish (htask : ∀ token ∈ task, ∃ checked, token.mark = .task checked)
    (hhere : source.drop position = text) (hbefore : Behind source base position behind)
    (h : Stepped source task base position tokens begun) :
    Tokened source task base (finish behind tokens begun position text) := by
  have hle := hbefore.le
  have hclearEnd (i : Nat) := @clear_eol source position text hhere i
  unfold finish
  extract_lets stop rest backslashes blanks kind
  split
  · next hescaped =>
      have hsome : 0 < backslashes := by
        simp only [Bool.and_eq_true, decide_eq_true_eq] at hescaped
        omega
      have hahead : backslashes ≤ behind.length := (List.takeWhile_sublist _).length_le
      refine ⟨(h.gathered.pushText htask h.le _).widen (Nat.le_add_right _ _), ?_, ?_, by simp⟩
      · refine unclosed_pushText h.unclosed fun i hfirst hlast => ?_
        by_cases hinside : i < position
        · exact clear_of_behind hbefore (p := (· = '\\')) rfl rfl (by omega) hinside
        · exact hclearEnd i (Nat.le_of_not_lt hinside) hlast
      · rintro token ⟨rfl⟩
        exact ⟨rfl, by simp only [Span.start_upTo]; omega⟩
  · have hwithin : blanks ≤ behind.length := (List.takeWhile_sublist _).length_le
    refine ⟨(h.gathered.pushText htask h.le _).widen (Nat.le_add_right _ _), ?_, ?_, ?_⟩
    · refine unclosed_pushText h.unclosed fun i hfirst hlast => ?_
      by_cases hinside : i < position
      · exact clear_of_behind hbefore rfl rfl hfirst hinside
      · exact hclearEnd i (Nat.le_of_not_lt hinside) hlast
    · intro token hmem
      simp only [Option.mem_def] at hmem
      split at hmem
      · cases hmem
      · cases hmem
        refine ⟨?_, by simp only [Span.start_upTo]; omega⟩
        by_cases htwo : 2 ≤ blanks <;> simp [Token.run?, kind, htwo]
    · intro hnone
      by_cases hempty : text.isEmpty = true
      · simp [rest, List.isEmpty_iff.mp hempty]
      · simp [hempty] at hnone

theorem tokened_readFrom (htask : ∀ token ∈ task, ∃ checked, token.mark = .task checked)
    (extensions : Extensions) {skip : Nat} (hhere : source.drop position = text)
    (hbefore : Behind source base position behind)
    (h : Stepped source task base (position + skip) tokens begun)
    (hwithin : skip ≤ countWhile isInner text) :
    Tokened source task base (readFrom extensions behind tokens begun position skip text) := by
  induction text generalizing behind tokens begun position skip with
  | nil =>
      obtain rfl : skip = 0 := by simpa [countWhile] using hwithin
      exact tokened_finish htask hhere hbefore h
  | cons c rest ih =>
      have hnext : source.drop (position + 1) = rest := by
        rw [← List.drop_drop, hhere, List.drop_succ_cons, List.drop_zero]
      have hfurther := hbefore.cons hhere
      rw [readFrom]
      split
      · next hpending =>
          refine ih hnext hfurther ?_ ?_
          · rwa [show position + 1 + (skip - 1) = position + skip by omega]
          · by_cases hinner : isInner c = true
            · simp only [countWhile, List.takeWhile_cons, hinner, if_true, List.length_cons]
                at hwithin
              exact Nat.sub_le_of_le_add hwithin
            · simp [countWhile, hinner] at hwithin
              omega
      · next hnone =>
          obtain rfl : skip = 0 := by omega
          split
          · exact tokened_finish htask hhere hbefore h
          · have hle : base ≤ position := Nat.le_trans (Nat.le_add_right _ _) hbefore.le
            exact ih hnext hfurther (stepped_step htask extensions behind hhere h hle)
              (step_skip extensions behind tokens begun position rest)

/-- A line is read into tokens that stand where the source has them. -/
theorem tokened_read (htask : ∀ token ∈ task, ∃ checked, token.mark = .task checked)
    (extensions : Extensions) (hhere : source.drop position = text) (hle : base ≤ position)
    (h : Gathered source task base position tokens) (hunclosed : Unclosed source position tokens) :
    Tokened source task base (read extensions tokens position text) := by
  have hbefore :
      Behind source base position [] := ⟨hle, fun i hlt => absurd hlt (Nat.not_lt_zero i)⟩
  exact tokened_readFrom htask extensions hhere hbefore ⟨h, hle, hunclosed⟩ (Nat.zero_le _)

end

end TokenLine

/-! ## Blocks -/

def LeafBlock.tokens : LeafBlock → List Token
  | .paragraph _ tokens => tokens
  | .heading _ tokens => tokens
  | _ => []

structure LeafRead.Tokened (source : Text) (start : Nat) (read : LeafRead) : Prop where
  starts : read.span.start = start
  le : start ≤ read.position
  tokens : BlockTokens source start start read.position read.leaf.tokens

theorem LeafRead.Tokened.of_nil {source : Text} {start : Nat} {read : LeafRead}
    (hstarts : read.span.start = start) (hle : start ≤ read.position)
    (hnone : read.leaf.tokens = []) : read.Tokened source start :=
  ⟨hstarts, hle, none, [], hnone, by simp, .nil hle, by simp⟩

section

variable {source : Text} {task : Option Token} {base start stop : Nat} {tokens : List Token}

theorem Gathered.blockTokens (htask : ∀ token ∈ task, ∃ checked, token.mark = .task checked)
    (h : Gathered source task base stop tokens) :
    BlockTokens source base base stop tokens.reverse := by
  obtain ⟨rest, rfl, hahead⟩ := h
  refine ⟨task, rest.reverse, ?_, htask, hahead⟩
  rw [List.reverse_append]
  cases task <;> rfl

theorem Runs.split {first second : List Token} (h : Runs source start stop (first ++ second)) :
    ∃ middle, Runs source start middle first ∧ Runs source middle stop second := by
  induction first generalizing start with
  | nil => exact ⟨start, .nil (Nat.le_refl _), h⟩
  | cons token rest ih =>
      cases h with
      | run hle his hstands hlater =>
          obtain ⟨middle, hbefore, hbehind⟩ := ih hlater
          exact ⟨middle, .run hle his hstands hbefore, hbehind⟩
      | other his hlater =>
          obtain ⟨middle, hbefore, hbehind⟩ := ih hlater
          exact ⟨middle, .other his hbefore, hbehind⟩

namespace LeafReader

theorem gathered_endLast {place : Nat} (h : Gathered source none base stop tokens)
    (hunclosed : Unclosed source place tokens) :
    Gathered source none base stop (endLast place tokens) := by
  obtain ⟨rest, rfl, hahead⟩ := h
  rw [Option.toList_none, List.append_nil] at hunclosed ⊢
  cases rest with
  | nil => exact ⟨[], rfl, hahead⟩
  | cons token rest =>
      rw [List.reverse_cons] at hahead
      have hsolid := hahead.solid token (by simp)
      obtain ⟨middle, hbefore, hlast⟩ := hahead.runs.split
      have hothers : Ahead source base base middle rest.reverse :=
        ⟨hbefore, fun other hmem => hahead.solid other (List.mem_append_left _ hmem)⟩
      have hgathered : Gathered source none base middle rest := ⟨rest, by simp, hothers⟩
      refine hgathered.push ⟨hsolid.start, fun hrun i hfirst hwithin => ?_⟩ ?_
      · refine hunclosed token rfl hrun i hfirst ?_
        simp only [Span.start_upTo, Span.stop_upTo] at hfirst hwithin
        omega
      cases hlast with
      | run hle his hstands hlater => exact .run hle his hstands hlater
      | other his hlater => exact .other his hlater

variable {position : Nat} {line : TokenLine}
  (htask : ∀ token ∈ task, ∃ checked, token.mark = .task checked)
include htask

theorem gathered_pushBackslash (h : line.Tokened source task base) :
    Gathered source task base line.position (pushBackslash line) := by
  unfold pushBackslash
  split
  · next span hfound =>
      have ⟨_, hfirst⟩ := h.lineBreak _ hfound
      exact h.gathered.pushText htask hfirst _
  · exact h.gathered

omit htask in
theorem unclosed_pushBackslash (h : line.Tokened source task base) :
    Unclosed source line.position (pushBackslash line) := by
  unfold pushBackslash
  split
  · next span hfound =>
      unfold Token.pushText
      rw [if_neg (Nat.not_le.mpr (Nat.lt_succ_self _))]
      split
      · split
        · exact unclosed_of_plain rfl
        · exact unclosed_of_plain rfl
      · exact unclosed_of_plain rfl
  · exact h.unclosed

theorem tokened_paragraphFrom (extensions : Extensions) (containers : List Container)
    (fuel : Nat) {text : Text} (hhere : source.drop position = text) (hle : start ≤ position)
    (h : Gathered source task start position tokens) (hunclosed : Unclosed source position tokens) :
    (paragraphFrom extensions containers start fuel tokens position text).Tokened source start := by
  induction fuel generalizing tokens position text with
  | zero => exact ⟨rfl, hle, h.blockTokens htask⟩
  | succ fuel ih =>
      have hread := TokenLine.tokened_read htask extensions hhere hle h hunclosed
      have honward := TokenLine.onward_read extensions tokens position text
      unfold paragraphFrom
      simp only
      generalize TokenLine.read extensions tokens position text = line at hread honward ⊢
      have hahead := Nat.le_trans hle honward.le
      have hgathered := gathered_pushBackslash htask hread
      have hnext := (LineHead.leads_takeExactly _ 4).onward
        (LineHead.onward_within containers line.position line.rest)
      have hcontent := (LineHead.leads_takeAll _).onward hnext
      split
      · refine ⟨rfl, Nat.le_trans hahead ?_, (hgathered.widen ?_).blockTokens htask⟩
        · simp only
          omega
        · simp only
          omega
      split
      · exact ⟨rfl, hahead, hgathered.blockTokens htask⟩
      · next hgoes =>
          refine ih ((honward.trans hcontent).source hhere) (Nat.le_trans hahead hcontent.le) ?_ ?_
          · cases hfound : line.lineBreak with
            | none => exact hread.gathered.widen hcontent.le
            | some token =>
                have ⟨hplain, hfirst⟩ := hread.lineBreak token hfound
                exact (hread.gathered.pushPlain hplain hfirst).widen hcontent.le
          · cases hfound : line.lineBreak with
            | none =>
                obtain ⟨n, -, hrest⟩ := hcontent
                have hempty := hrest.trans (show line.rest.drop n = [] by
                  rw [hread.ended hfound, List.drop_nil])
                simp [LineHead.atEol, hempty] at hgoes
            | some token => exact unclosed_of_plain (hread.lineBreak token hfound).1

theorem tokened_paragraph (extensions : Extensions) (containers : List Container) {text : Text}
    (hhere : source.drop position = text) :
    (paragraph extensions containers task position text).Tokened source position := by
  have honward := (from_paragraph containers position text extensions task).le
  revert honward
  unfold paragraph
  simp only
  split
  · exact fun honward => .of_nil rfl honward rfl
  · refine fun _ => tokened_paragraphFrom htask extensions containers _ hhere (Nat.le_refl _) ?_ ?_
    · exact ⟨[], by simp, .nil (Nat.le_refl _), by simp⟩
    · cases task with
      | none => simp [Unclosed]
      | some token =>
          obtain ⟨checked, hmark⟩ := htask token rfl
          exact unclosed_of_plain (by rw [Token.run?, hmark])

omit htask in
theorem headingContent_le (line : Text) : headingContent line ≤ line.length := by
  have hcontent := Text.length_dropEndWhile_le
    (fun c => decide (c = '\n') || decide (c = '\r') || decide (c = ' ')) line
  unfold headingContent
  extract_lets isEnd content' unclosed trimmed
  have hshorter : unclosed.length ≤ content'.length := Text.length_dropEndWhile_le _ _
  have htrims : trimmed.length ≤ unclosed.length := Text.length_dropEndWhile_le _ _
  have hwhole : content'.length ≤ line.length := hcontent
  split_ifs
  · exact Nat.zero_le _
  · omega
  · exact hwhole

omit htask in
/-- The line of a heading ends, at the latest, where the reader of lines does. -/
theorem gathered_headingLine (extensions : Extensions) {first : Nat} {content : Text}
    (hhere : source.drop first = content) (hle : base ≤ first) :
    Gathered source none base (TokenLine.read extensions [] first content).position
      (endLast (first + headingContent (content.take
        ((TokenLine.read extensions [] first content).position - first)))
        (pushBackslash (TokenLine.read extensions [] first content))) := by
  have hnone : ∀ token ∈ (none : Option Token), ∃ checked, token.mark = .task checked := by simp
  have hnone' : Gathered source none base first [] := ⟨[], rfl, .nil hle, by simp⟩
  have hread := TokenLine.tokened_read hnone extensions hhere hle hnone' (by simp [Unclosed])
  have honward := (TokenLine.onward_read extensions [] first content).le
  generalize TokenLine.read extensions [] first content = line at hread honward ⊢
  have hsize : headingContent (content.take (line.position - first)) ≤ line.position - first :=
    Nat.le_trans (headingContent_le _) (List.length_take_le _ _)
  refine gathered_endLast (gathered_pushBackslash hnone hread) ?_
  intro token hmem hrun i hstart hlast
  exact unclosed_pushBackslash hread token hmem hrun i hstart (by omega)

omit htask in
theorem tokened_heading (extensions : Extensions) (level : Nat) {text : Text}
    (hhere : source.drop position = text) :
    (heading extensions position level text).Tokened source position := by
  have hcontent := ((Onward.refl position text).drop level).drop
    (countWhile Ascii.isBlank (text.drop level))
  have hline := gathered_headingLine extensions (hcontent.source hhere) hcontent.le
  have honward := (from_heading position text extensions level).le
  revert honward
  unfold heading
  simp only
  split
  · exact fun honward => .of_nil rfl honward rfl
  · exact fun honward => ⟨rfl, honward, hline.blockTokens (by simp)⟩

end LeafReader

end

end Canonmark.Source
