import Canonmark.Proofs.Source.Closing
import Canonmark.Proofs.Source.Pairing

/-!
# Runs stay where they stand

Links, code spans and tags take tokens away from the front of those that are left. The runs of
delimiters among the others stand in the source as before, and none of them is cut in two.
-/

namespace Canonmark.Source

def Token.run? (token : Token) : Option Run :=
  match token.mark with
  | .delimiters char size opens closes => some ⟨char, size, opens, closes⟩
  | _ => none

inductive Runs (source : Text) : (start stop : Nat) → List Token → Prop
  | nil {start stop : Nat} (hle : start ≤ stop) : Runs source start stop []
  | run {start stop : Nat} {token : Token} {run : Run} {rest : List Token}
      (hle : start ≤ token.span.start) (his : token.run? = some run)
      (hstands : run.StandsAt source token.span.start)
      (hlater : Runs source (token.span.start + run.size) stop rest) :
      Runs source start stop (token :: rest)
  | other {start stop : Nat} {token : Token} {rest : List Token} (his : token.run? = none)
      (hlater : Runs source start stop rest) : Runs source start stop (token :: rest)

namespace Runs

variable {source : Text} {start stop : Nat} {tokens : List Token}

theorem widen (h : Runs source start stop tokens) {first last : Nat} (hbefore : first ≤ start)
    (hbehind : stop ≤ last) : Runs source first last tokens := by
  induction h generalizing first with
  | nil hle => exact .nil (by omega)
  | run hle his hstands _ ih =>
      exact .run (Nat.le_trans hbefore hle) his hstands (ih (Nat.le_refl _) hbehind)
  | other his _ ih => exact .other his (ih hbefore hbehind)

theorem append (h : Runs source start stop tokens) {last : Nat} {others : List Token}
    (hlater : Runs source stop last others) : Runs source start last (tokens ++ others) := by
  induction h with
  | nil hle => exact hlater.widen hle (Nat.le_refl _)
  | run hle his hstands _ ih => exact .run hle his hstands (ih hlater)
  | other his _ ih => exact .other his (ih hlater)

theorem tail {token : Token} (h : Runs source start stop (token :: tokens)) :
    Runs source start stop tokens := by
  cases h with
  | run hle his hstands hlater => exact hlater.widen (by omega) (Nat.le_refl _)
  | other his hlater => exact hlater

theorem sublist (h : Runs source start stop tokens) {others : List Token}
    (hsub : others.Sublist tokens) : Runs source start stop others := by
  induction h generalizing others with
  | nil hle =>
      rw [List.sublist_nil.mp hsub]
      exact .nil hle
  | run hle his hstands _ ih =>
      cases hsub with
      | cons _ hsub => exact (ih hsub).widen (by omega) (Nat.le_refl _)
      | cons_cons _ hsub => exact .run hle his hstands (ih hsub)
  | other his _ ih =>
      cases hsub with
      | cons _ hsub => exact ih hsub
      | cons_cons _ hsub => exact .other his (ih hsub)

theorem le (h : Runs source start stop tokens) : start ≤ stop := by
  induction h with
  | nil hle => exact hle
  | run _ _ _ _ ih => omega
  | other _ _ ih => exact ih

end Runs

def Clear (source : Text) (i : Nat) : Prop := source[i]? ≠ some ')' ∧ source[i]? ≠ some '>'

/-- A token of a block; if it stands for a run, neither a link nor a tag ends in it. -/
structure Token.Solid (source : Text) (base : Nat) (token : Token) : Prop where
  start : base ≤ token.span.start
  solid : token.run? ≠ none → ∀ i, token.span.start ≤ i → i < token.span.stop → Clear source i

theorem Token.Solid.stop {source : Text} {base : Nat} {token : Token}
    (h : token.Solid source base) : base ≤ token.span.stop :=
  Nat.le_trans h.start token.span.start_le_stop

structure Ahead (source : Text) (base start stop : Nat) (tokens : List Token) : Prop where
  runs : Runs source start stop tokens
  solid : ∀ token ∈ tokens, token.Solid source base

namespace Ahead

variable {source : Text} {base start stop : Nat} {tokens : List Token}

theorem sublist (h : Ahead source base start stop tokens) {others : List Token}
    (hsub : others.Sublist tokens) : Ahead source base start stop others :=
  ⟨h.runs.sublist hsub, fun token hmem => h.solid token (hsub.mem hmem)⟩

/-- Tokens behind the end of a link or a tag: no run ends there. -/
theorem cutTokens (h : Ahead source base start stop tokens) {position : Nat}
    (hcloses : ClosesAt source position) :
    Ahead source base start stop (cutTokens position tokens) := by
  have hlater : Ahead source base start stop (LinkTail.tokensFrom position tokens) :=
    h.sublist (List.dropWhile_sublist _)
  unfold Source.cutTokens
  split
  · next mark span rest hbehind =>
      rw [hbehind] at hlater
      have hinside : position < span.stop := by
        have hfirst := List.head?_dropWhile_not
          (fun token : Token => decide (token.span.stop ≤ position)) tokens
        rw [LinkTail.tokensFrom] at hbehind
        rw [hbehind] at hfirst
        simpa using hfirst
      have ⟨hfrom', hsolid⟩ := hlater.solid _ List.mem_cons_self
      by_cases hrun : (Token.mk mark span).run? = none
      · refine ⟨.other hrun hlater.runs.tail, fun token hmem => ?_⟩
        rcases List.mem_cons.mp hmem with rfl | hmem
        · exact ⟨Nat.le_trans hfrom' (Nat.le_max_left _ _), fun hsome => absurd hrun hsome⟩
        · exact hlater.solid token (List.mem_cons_of_mem _ hmem)
      · have huncut : max span.start position = span.start := by
          obtain ⟨last, rfl, hclosing⟩ := hcloses
          by_contra hcut
          have ⟨hnoParen, hnoAngle⟩ := hsolid hrun last
            (show span.start ≤ last by omega) (show last < span.stop by omega)
          exact hclosing.elim hnoParen hnoAngle
        rw [huncut, Span.upTo_eq]
        exact hlater
  · exact ⟨.nil h.runs.le, fun _ hmem => absurd hmem List.not_mem_nil⟩

theorem barReference (h : Ahead source base start stop tokens) (place : Nat) :
    Ahead source base start stop (barReference place tokens) := by
  induction tokens generalizing start with
  | nil => exact h
  | cons token rest ih =>
      have hhere := h.solid token List.mem_cons_self
      have hbehind (other : Token) (hmem : other ∈ rest) :=
          h.solid other (List.mem_cons_of_mem _ hmem)
      rw [Source.barReference]
      split
      · cases h.runs with
        | run hle his hstands hlater =>
            have htail := ih ⟨hlater, hbehind⟩
            refine ⟨.run hle his hstands htail.runs, fun other hmem => ?_⟩
            rcases List.mem_cons.mp hmem with rfl | hmem
            · exact hhere
            · exact htail.solid other hmem
        | other his hlater =>
            have htail := ih ⟨hlater, hbehind⟩
            refine ⟨.other his htail.runs, fun other hmem => ?_⟩
            rcases List.mem_cons.mp hmem with rfl | hmem
            · exact hhere
            · exact htail.solid other hmem
      · refine ⟨.other rfl h.runs.tail, fun other hmem => ?_⟩
        rcases List.mem_cons.mp hmem with rfl | hmem
        · exact ⟨hhere.start, fun hsome => absurd rfl hsome⟩
        · exact hbehind other hmem

end Ahead

/-! ## States of the first pass -/

/-- Open brackets from `start` up to `stop`, each with the nodes before it. -/
def Brackets (source : Text) (start : Nat) : List OpenBracket → (stop : Nat) → Prop
  | [], stop => start ≤ stop
  | bracket :: below, stop =>
      ∃ place, Brackets source start below place ∧ Row source place stop bracket.before.reverse

def Settled (source : Text) (start stop : Nat) (state : LinkState) : Prop :=
  ∃ place, Brackets source start state.brackets place ∧ Row source place stop state.nodes.reverse

namespace Settled

variable {source : Text} {start stop last : Nat} {state : LinkState} (context : InlineContext)

theorem widen (h : Settled source start stop state) (hle : stop ≤ last) :
    Settled source start last state := by
  obtain ⟨place, hbrackets, hnodes⟩ := h
  exact ⟨place, hbrackets, hnodes.widen (Nat.le_refl _) hle⟩

theorem push {node : InlineNode} (h : Settled source start stop state)
    (hrow : Row source stop last [node]) : Settled source start last (state.push node) := by
  obtain ⟨place, hbrackets, hnodes⟩ := h
  refine ⟨place, hbrackets, ?_⟩
  rw [LinkState.push, List.reverse_cons]
  exact hnodes.append hrow

theorem pushText (h : Settled source start stop state) (span : Span) :
    Settled source start stop (state.pushText context span) :=
  h.push (.atom _ _ (.nil (Nat.le_refl _)))

theorem open' (h : Settled source start stop state) (image : Bool) (span : Span) :
    Settled source start stop
      { state with
        brackets := ⟨image, true, span, state.nodes⟩ :: state.brackets, nodes := [] } := by
  obtain ⟨place, hbrackets, hnodes⟩ := h
  exact ⟨stop, ⟨place, hbrackets, hnodes⟩, .nil (Nat.le_refl _)⟩

theorem flatten (h : Settled source start stop state) :
    Settled source start stop (state.flatten context) := by
  obtain ⟨place, hbrackets, hnodes⟩ := h
  unfold LinkState.flatten
  split
  · exact ⟨place, hbrackets, hnodes⟩
  · next bracket below hspine =>
      rw [hspine] at hbrackets
      obtain ⟨lower, hrest, hbefore⟩ := hbrackets
      refine ⟨lower, hrest, ?_⟩
      rw [List.reverse_append, List.reverse_cons, List.append_assoc]
      exact hbefore.append (.atom _ _ hnodes)

theorem flattenAll (h : Settled source start stop state) :
    Settled source start stop (state.flattenAll context) := by
  unfold LinkState.flattenAll
  generalize state.brackets = brackets
  induction brackets generalizing state with
  | nil => exact h
  | cons bracket rest ih => exact ih (h.flatten context)

theorem brackets_map {brackets : List OpenBracket} (h : Brackets source start brackets stop)
    {f : OpenBracket → OpenBracket} (hsame : ∀ bracket, (f bracket).before = bracket.before) :
    Brackets source start (brackets.map f) stop := by
  induction brackets generalizing stop with
  | nil => exact h
  | cons bracket below ih =>
      obtain ⟨place, hrest, hbefore⟩ := h
      exact ⟨place, ih hrest, by rwa [hsame]⟩

theorem makeLink (h : Settled source start stop state) (form : LinkForm)
    (destination title : Text) (place : Nat) :
    Settled source start stop (state.makeLink form destination title place) := by
  obtain ⟨inner, hbrackets, hnodes⟩ := h
  unfold LinkState.makeLink
  split
  · exact ⟨inner, hbrackets, hnodes⟩
  · next bracket below hspine =>
      rw [hspine] at hbrackets
      obtain ⟨lower, hrest, hbefore⟩ := hbrackets
      refine ⟨lower, ?_, ?_⟩
      · simp only
        split
        · exact hrest
        · exact brackets_map hrest fun _ => rfl
      · rw [List.reverse_cons]
        exact hbefore.append (.link _ _ _ _ _ hnodes (.nil (Nat.le_refl _)))

theorem makeFootnote (h : Settled source start stop state) (place : Nat) :
    Settled source start stop (state.makeFootnote context place) := by
  obtain ⟨inner, hbrackets, hnodes⟩ := h
  unfold LinkState.makeFootnote
  split
  · exact ⟨inner, hbrackets, hnodes⟩
  · next bracket below hspine =>
      rw [hspine] at hbrackets
      obtain ⟨lower, hrest, hbefore⟩ := hbrackets
      apply flattenAll context
      refine ⟨lower, hrest, ?_⟩
      have hbehind := hbefore.widen (Nat.le_refl _) hnodes.le
      rw [List.reverse_append]
      refine hbehind.append ?_
      split
      · exact .atom _ _ (.atom _ _ (.nil (Nat.le_refl _)))
      · exact .atom _ _ (.nil (Nat.le_refl _))

theorem labelled? {label : Text} {place : Nat} {made : LinkState}
    (h : Settled source start stop state)
    (hfound : Source.labelled? context label place state = some made) :
    Settled source start stop made := by
  obtain ⟨definition, -, rfl⟩ := Option.map_eq_some_iff.mp hfound
  have hspent : Settled source start stop (spend definition state) := h
  exact hspent.makeLink _ _ _ _

end Settled

/-! ## Settling -/

/-- A state and the tokens that are left, the runs of both in the order of the source. -/
def Settling (source : Text) (base start stop : Nat) (state : LinkState) (rest : List Token) :
    Prop :=
  ∃ middle, Settled source start middle state ∧ Ahead source base middle stop rest

section

variable {source : Text} {base start middle stop : Nat} {state : LinkState} {rest : List Token}
  {span : Span} {context : InlineContext}

theorem closingBackticks?_suffix {size : Nat} {tokens behind : List Token} {close : Span}
    (h : closingBackticks? size tokens = some (close, behind)) : behind <:+ tokens := by
  fun_induction closingBackticks? size tokens with
  | case1 => cases h
  | case2 =>
      cases h
      exact List.suffix_cons _ _
  | case3 _ _ _ _ _ ih => exact (ih h).trans (List.suffix_cons _ _)
  | case4 _ _ _ ih => exact (ih h).trans (List.suffix_cons _ _)

theorem settling_backticks (h : Settled source start middle state)
    (hahead : Ahead source base middle stop rest) (size : Nat) (escaped : Bool) :
    Settling source base start stop (backticks context size escaped span rest state).1
      (backticks context size escaped span rest state).2 := by
  unfold backticks
  extract_lets needed begins before
  split
  · exact ⟨middle, h.pushText context span, hahead⟩
  · next close behind hfound =>
      have hsuffix : behind <:+ rest := by
        split at hfound
        · cases hfound
        · exact closingBackticks?_suffix hfound
      refine ⟨middle, Settled.push ?_ (.atom _ _ (.nil (Nat.le_refl _))),
        hahead.sublist hsuffix.sublist⟩
      simp only [before]
      split
      · exact h.pushText context _
      · exact h

theorem settling_reference (h : Settled source start middle state)
    (hahead : Ahead source base middle stop rest) (bracket : OpenBracket) (refers : Bool) :
    Settling source base start stop (reference context bracket refers span rest state).1
      (reference context bracket refers span rest state).2 := by
  have hplain {rest : List Token} (hahead : Ahead source base middle stop rest) :
      Settling source base start stop ((state.flatten context).pushText context span) rest :=
    ⟨middle, (h.flatten context).pushText context span, hahead⟩
  unfold reference
  extract_lets plain' ownLabel
  have hown {behind : List Token} (hsub : behind.Sublist rest) :
      Settling source base start stop (ownLabel behind).1 (ownLabel behind).2 := by
    simp only [ownLabel]
    split
    · exact hplain hahead
    split
    · exact hplain hahead
    · split
      · exact ⟨middle, h.makeFootnote context _, hahead⟩
      · exact hplain hahead
    · split
      · next hfound => exact ⟨middle, h.labelled? context hfound, hahead.sublist hsub⟩
      · exact hplain hahead
  split
  · exact hown (List.Sublist.refl _)
  · next next behind =>
      extract_lets text
      split
      · exact hown (List.drop_sublist _ _)
      split
      · next label n hfound =>
          extract_lets place
          split
          · exact hplain hahead
          · next first left htokens =>
              split
              · next hmade =>
                  have hsub : left.Sublist (next :: behind) := by
                    have := List.dropWhile_sublist
                      (fun token : Token => decide (token.span.stop ≤ place - 1))
                      (l := next :: behind)
                    rw [LinkTail.tokensFrom] at htokens
                    rw [htokens] at this
                    exact (List.sublist_cons_self _ _).trans this
                  exact ⟨middle, h.labelled? context hmade, hahead.sublist hsub⟩
              · exact hplain (hahead.barReference _)
      · exact hown (List.Sublist.refl _)

theorem settling_closingBracket (hwithin : context.Within source) (hle : context.base ≤ span.stop)
    (h : Settled source start middle state) (hahead : Ahead source base middle stop rest)
    (refers : Bool) :
    Settling source base start stop (closingBracket context refers span rest state).1
      (closingBracket context refers span rest state).2 := by
  unfold closingBracket
  split
  · exact ⟨middle, h.pushText context span, hahead⟩
  split
  · exact ⟨middle, (h.flatten context).pushText context span, hahead⟩
  split
  · next destination title place hfound =>
      exact ⟨middle, h.makeLink _ _ _ _, hahead.cutTokens (LinkTail.closesAt_read? hwithin hle
        hfound)⟩
  · exact settling_reference h hahead _ refers

theorem row_angle? {next : Span} {node : InlineNode} {place : Nat}
    (h : angle? context span next = some (node, place)) (position : Nat) :
    Row source position position [node] := by
  have hnone : Row source position position [] := .nil (Nat.le_refl _)
  unfold angle? at h
  extract_lets text link at h
  split at h
  · cases h
    exact .link _ _ _ _ _ (.atom _ _ hnone) hnone
  split at h
  · cases h
    exact .link _ _ _ _ _ (.atom _ _ hnone) hnone
  · obtain ⟨⟨n, cut⟩, -, hsame⟩ := Option.map_eq_some_iff.mp h
    cases hsame
    exact .atom _ _ hnone

theorem settling_settle (hwithin : context.Within source) (hsame : base = context.base)
    {token : Token} (h : Settling source base start stop state (token :: rest)) :
    Settling source base start stop (settle context token rest state).1
      (settle context token rest state).2 := by
  obtain ⟨middle, hsettled, hahead⟩ := h
  have hbehind := hahead.sublist (List.sublist_cons_self token rest)
  have hatom (content : InlineAtom) (span : Span) : Row source middle middle [.atom content span] :=
    .atom _ _ (.nil (Nat.le_refl _))
  unfold settle
  extract_lets span opening
  split
  · exact ⟨middle, hsettled.pushText context span, hbehind⟩
  · exact ⟨middle, hsettled.push (hatom _ _), hbehind⟩
  · exact ⟨middle, hsettled.push (hatom _ _), hbehind⟩
  · exact ⟨middle, hsettled.push (.hardBreak _ _ (.nil (Nat.le_refl _))), hbehind⟩
  · exact ⟨middle, hsettled.push (hatom _ _), hbehind⟩
  · next char size opens closes hmark =>
      have his : token.run? = some ⟨char, size, opens, closes⟩ := by rw [Token.run?, hmark]
      cases hahead.runs with
      | run hle hother hstands hlater =>
          obtain rfl := Option.some.inj (his.symm.trans hother)
          exact ⟨token.span.start + size, hsettled.push (.run hle hstands (.nil (Nat.le_refl _))),
            hlater, hbehind.solid⟩
      | other hnone _ => exact absurd (his.symm.trans hnone) (Option.some_ne_none _)
  · exact ⟨middle, hsettled.open' _ _, hbehind⟩
  · exact ⟨middle, hsettled.open' _ _, hbehind⟩
  · exact settling_backticks hsettled hbehind _ _
  · have hle : context.base ≤ span.stop := hsame ▸ (hahead.solid token List.mem_cons_self).stop
    exact settling_closingBracket hwithin hle hsettled hbehind _
  · split
    · exact ⟨middle, hsettled.pushText context span, hbehind⟩
    · next next others =>
        have hle : context.base ≤ next.span.start :=
          hsame ▸ (hbehind.solid next List.mem_cons_self).start
        split
        · next node place hfound =>
            exact ⟨middle, hsettled.push (row_angle? hfound middle),
              hbehind.cutTokens (closesAt_angle? hwithin hle hfound)⟩
        · exact ⟨middle, hsettled.pushText context span, hbehind⟩

theorem settled_settleAll (hwithin : context.Within source) (hsame : base = context.base)
    (fuel : Nat) {tokens : List Token} (h : Settling source base start stop state tokens) :
    Settled source start stop (settleAll context fuel state tokens) := by
  induction fuel generalizing state tokens with
  | zero =>
      obtain ⟨middle, hsettled, hahead⟩ := h
      exact hsettled.widen hahead.runs.le
  | succ fuel ih =>
      cases tokens with
      | nil =>
          obtain ⟨middle, hsettled, hahead⟩ := h
          exact hsettled.widen hahead.runs.le
      | cons token rest => exact ih (settling_settle hwithin hsame h)

theorem brackets_flatten (state : LinkState) :
    (state.flatten context).brackets = state.brackets.tail := by
  unfold LinkState.flatten
  split
  · next hnone => rw [hnone, List.tail_nil]
  · next hsome => rw [hsome, List.tail_cons]

theorem brackets_flattenAll (state : LinkState) : (state.flattenAll context).brackets = [] := by
  have hdrop (closed : List OpenBracket) (state : LinkState) :
      (closed.foldl (fun state _ => state.flatten context) state).brackets =
        state.brackets.drop closed.length := by
    induction closed generalizing state with
    | nil => rfl
    | cons bracket rest ih =>
        rw [List.foldl_cons, ih, brackets_flatten, List.length_cons, List.drop_tail]
  rw [LinkState.flattenAll, hdrop, List.drop_length]

theorem row_flattenAll (h : Settled source start stop state) :
    Row source start stop (state.flattenAll context).nodes.reverse := by
  obtain ⟨place, hbrackets, hnodes⟩ := h.flattenAll context
  rw [brackets_flattenAll] at hbrackets
  exact hnodes.widen hbrackets (Nat.le_refl _)

end

def BlockTokens (source : Text) (base start stop : Nat) (tokens : List Token) : Prop :=
  ∃ task : Option Token, ∃ rest, tokens = task.toList ++ rest ∧
    (∀ token ∈ task, ∃ checked, token.mark = .task checked) ∧ Ahead source base start stop rest

theorem paired_ofTokens {source : Text} {start stop : Nat} {context : InlineContext}
    {tokens : List Token} (hwithin : context.Within source) (budget : Nat)
    (h : BlockTokens source context.base start stop tokens) :
    PairedNodes source start stop (InlineNode.ofTokens context budget tokens).1 := by
  obtain ⟨task, rest, rfl, htask, hahead⟩ := h
  have hfirst : Settled source start start { budget := budget } :=
    ⟨start, Nat.le_refl _, .nil (Nat.le_refl _)⟩
  have hsettled : Settled source start stop (settleAll context
      ((task.toList ++ rest).length + 1) { budget := budget } (task.toList ++ rest)) := by
    cases task with
    | none => exact settled_settleAll hwithin rfl _ ⟨start, hfirst, hahead⟩
    | some token =>
        obtain ⟨checked, hmark⟩ := htask token rfl
        have hboxed : Settled source start start
            (LinkState.push (.atom (.task checked) token.span) { budget := budget }) :=
          hfirst.push (.atom _ _ (.nil (Nat.le_refl _)))
        have hnext : settle context token rest { budget := budget } =
            (LinkState.push (.atom (.task checked) token.span) { budget := budget }, rest) := by
          simp [settle, hmark]
        rw [Option.toList_some, List.singleton_append, List.length_cons, settleAll, hnext]
        exact settled_settleAll hwithin rfl _ ⟨start, hboxed, hahead⟩
  exact Emphasis.paired_row context (row_flattenAll hsettled)

end Canonmark.Source
