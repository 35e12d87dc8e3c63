import Canonmark.Proofs.Source.Paired
import Canonmark.Source.Inline

/-!
# Delimiters are paired inside out

A run that closes takes its partner from the stack of the runs that may open. What stands between
the two has been paired before, and the openers in between turn into text, so that pairs nest.
-/

namespace Canonmark.Source

structure Run.StandsAt (source : Text) (position : Nat) (run : Run) : Prop where
  char : run.char = '*' ∨ run.char = '_' ∨ run.char = '~'
  pos : 0 < run.size
  stands : Stands source run.char position run.size

/-- Nodes from `start` up to `stop` in which runs are not yet paired. -/
inductive Row (source : Text) : (start stop : Nat) → List InlineNode → Prop
  | nil {start stop : Nat} (hle : start ≤ stop) : Row source start stop []
  | atom {start stop : Nat} (content : InlineAtom) (span : Span) {rest : List InlineNode}
      (hlater : Row source start stop rest) :
      Row source start stop (.atom content span :: rest)
  | run {start stop : Nat} {run : Run} {span : Span} {rest : List InlineNode}
      (hle : start ≤ span.start) (hstands : run.StandsAt source span.start)
      (hlater : Row source (span.start + run.size) stop rest) :
      Row source start stop (.run run span :: rest)
  | hardBreak {start stop : Nat} (backslash : Bool) (span : Span) {rest : List InlineNode}
      (hlater : Row source start stop rest) :
      Row source start stop (.hardBreak backslash span :: rest)
  | link {start middle stop : Nat} (image : Bool) (form : LinkForm) (destination title : Text)
      (span : Span) {children rest : List InlineNode} (hinside : Row source start middle children)
      (hlater : Row source middle stop rest) :
      Row source start stop (.group (.link image form destination title) span children :: rest)

namespace Row

variable {source : Text} {start stop : Nat} {nodes : List InlineNode}

theorem widen (h : Row source start stop nodes) {first last : Nat} (hbefore : first ≤ start)
    (hbehind : stop ≤ last) : Row source first last nodes := by
  induction h generalizing first last with
  | nil hle => exact .nil (by omega)
  | atom content span _ ih => exact .atom content span (ih hbefore hbehind)
  | run hle hstands _ ih =>
      exact .run (Nat.le_trans hbefore hle) hstands (ih (Nat.le_refl _) hbehind)
  | hardBreak backslash span _ ih => exact .hardBreak backslash span (ih hbefore hbehind)
  | link image form destination title span _ _ hinside hlater =>
      exact .link image form destination title span (hinside hbefore (Nat.le_refl _))
        (hlater (Nat.le_refl _) hbehind)

theorem append (h : Row source start stop nodes) {last : Nat} {others : List InlineNode}
    (hlater : Row source stop last others) : Row source start last (nodes ++ others) := by
  induction h with
  | nil hle => exact hlater.widen hle (Nat.le_refl _)
  | atom content span _ ih => exact .atom content span (ih hlater)
  | run hle hstands _ ih => exact .run hle hstands (ih hlater)
  | hardBreak backslash span _ ih => exact .hardBreak backslash span (ih hlater)
  | link image form destination title span hinside _ _ ih =>
      exact .link image form destination title span hinside (ih hlater)

theorem le (h : Row source start stop nodes) : start ≤ stop := by
  induction h with
  | nil hle => exact hle
  | atom _ _ _ ih => exact ih
  | run hle _ _ ih => omega
  | hardBreak _ _ _ ih => exact ih
  | link _ _ _ _ _ _ _ hinside hlater => omega

end Row

def PairedNodes (source : Text) (start stop : Nat) (nodes : List InlineNode) : Prop :=
  Paired source start stop (emphases (InlineNode.eventsOf nodes))

theorem InlineNode.eventsOf_append (nodes others : List InlineNode) :
    eventsOf (nodes ++ others) = eventsOf nodes ++ eventsOf others := by
  induction nodes with
  | nil => rfl
  | cons node rest ih => rw [List.cons_append, eventsOf, eventsOf, ih, List.append_assoc]

namespace PairedNodes

variable {source : Text} {start middle stop : Nat} {nodes others : List InlineNode}

theorem nil (hle : start ≤ stop) : PairedNodes source start stop [] := Paired.nil hle

theorem append (h : PairedNodes source start middle nodes)
    (hlater : PairedNodes source middle stop others) :
    PairedNodes source start stop (nodes ++ others) := by
  rw [PairedNodes, InlineNode.eventsOf_append, emphases_append]
  exact Paired.append h hlater

theorem singleton_iff (node : InlineNode) :
    PairedNodes source start stop [node] ↔ Paired source start stop (emphases node.events) := by
  rw [PairedNodes, InlineNode.eventsOf, InlineNode.eventsOf, List.append_nil]

theorem atom (hle : start ≤ stop) (content : InlineAtom) (span : Span) :
    PairedNodes source start stop [.atom content span] := by
  cases content <;> exact Paired.nil hle

theorem hardBreak (hle : start ≤ stop) (backslash : Bool) (span : Span) :
    PairedNodes source start stop [.hardBreak backslash span] := Paired.nil hle

theorem group {tag : InlineTag} (h : PairedNodes source start stop nodes)
    (hnone : emphasisWidth? tag.tag = none) (span : Span) :
    PairedNodes source start stop [.group tag span nodes] := by
  rw [singleton_iff, InlineNode.events, emphases_enclosed, hnone]
  exact h

theorem emphasis {tag : InlineTag} {width : Nat} {c : Char} (hchar : c = '*' ∨ c = '_')
    (his : emphasisWidth? tag.tag = some width) (hopening : Stands source c (start - width) width)
    (hclosing : Stands source c stop width) (hfits : width ≤ start)
    (h : PairedNodes source start stop nodes) :
    PairedNodes source (start - width) (stop + width)
      [.group tag (.upTo (start - width) (stop + width)) nodes] := by
  have hwide : width = 1 ∨ width = 2 := by
    cases tag <;> simp [InlineTag.tag, emphasisWidth?] at his <;> omega
  have hordered : start - width ≤ stop + width :=
    Nat.le_trans (Nat.sub_le _ _) (Nat.le_trans (Paired.le h) (Nat.le_add_right _ _))
  have hstops := Span.stop_upTo_of_le hordered
  have hpair : Paired source (start - width) (stop + width)
      ((width, .upTo (start - width) (stop + width)) ::
        (emphases (InlineNode.eventsOf nodes) ++ [])) := by
    apply @Paired.pair source _ _ width (.upTo (start - width) (stop + width)) _ _ c
      (Nat.le_refl _) hchar hwide hopening
    · rwa [hstops, Nat.add_sub_cancel]
    · rw [hstops, Nat.add_sub_cancel, Span.start_upTo, Nat.sub_add_cancel hfits]
      exact h
    · exact .nil (Nat.le_of_eq hstops)
  rw [singleton_iff, InlineNode.events, emphases_enclosed, his]
  simpa using hpair

end PairedNodes

namespace Emphasis

variable {source : Text} {start stop position : Nat}

/-! ## Openers and pairs -/

/-- Openers from `start` up to `stop`, each with the nodes before it; the latest comes first. -/
def Opened (source : Text) (start : Nat) : List Opener → (stop : Nat) → Prop
  | [], stop => start ≤ stop
  | opener :: below, stop =>
      ∃ place, Opened source start below place ∧
        PairedNodes source place opener.start opener.before.reverse ∧
        (opener.char = '*' ∨ opener.char = '_' ∨ opener.char = '~') ∧ 0 < opener.left ∧
        Stands source opener.char opener.start opener.left ∧ opener.start + opener.left ≤ stop

theorem Opened.split {above below : List Opener} {opener : Opener}
    (h : Opened source start (above ++ opener :: below) stop) :
    ∃ place, Opened source start (opener :: below) place ∧ Opened source place above stop := by
  induction above generalizing stop with
  | nil => exact ⟨stop, h, Nat.le_refl _⟩
  | cons first above ih =>
      obtain ⟨place, hrest, hbefore⟩ := h
      obtain ⟨middle, hlower, hupper⟩ := ih hrest
      exact ⟨middle, hlower, place, hupper, hbefore⟩

/-- Openers that find no partner are text between what stands around them. -/
theorem paired_flatten (context : InlineContext) {openers : List Opener} {place : Nat}
    (h : Opened source start openers place) {nodes : List InlineNode}
    (hbehind : PairedNodes source place stop nodes.reverse) :
    PairedNodes source start stop (flatten context openers nodes).reverse := by
  induction openers generalizing nodes place with
  | nil => exact Paired.widen hbehind h (Nat.le_refl _)
  | cons opener below ih =>
      obtain ⟨lower, hrest, hbefore, -, -, -, hle⟩ := h
      have htext : PairedNodes source opener.start place
          [runText context opener.start opener.left] :=
        .atom (Nat.le_of_add_right_le hle) _ _
      have hrow := hbefore.append (htext.append hbehind)
      refine ih hrest ?_
      rw [List.reverse_append, List.reverse_cons, List.append_assoc]
      exact hrow

theorem paired_group {char : Char} {width : Nat} (hwide : width = 1 ∨ width = 2)
    (his : char = '*' ∨ char = '_' ∨ char = '~') {nodes : List InlineNode}
    (hinner : PairedNodes source start stop nodes) (hfits : width ≤ start)
    (hopening : Stands source char (start - width) width)
    (hclosing : Stands source char stop width) :
    PairedNodes source (start - width) (stop + width)
      [.group (tag char width) (.upTo (start - width) (stop + width)) nodes] := by
  by_cases htilde : char = '~'
  · subst htilde
    exact (PairedNodes.group hinner rfl _).widen (Nat.sub_le _ _) (Nat.le_add_right _ _)
  · have hstar : char = '*' ∨ char = '_' := by tauto
    have hsame : emphasisWidth? (tag char width).tag = some width := by
      rcases hwide with rfl | rfl <;> simp [tag, htilde, InlineTag.tag, emphasisWidth?]
    exact hinner.emphasis hstar hsame hopening hclosing hfits

/-- Delimiters on both sides of nodes are used up in twos, and then a single one. -/
theorem exists_wrap {char : Char} (his : char = '*' ∨ char = '_' ∨ char = '~') {left : Nat}
    {nodes : List InlineNode} (hinner : PairedNodes source start stop nodes) (hpos : 0 < left)
    (hfits : left ≤ start) (hopening : Stands source char (start - left) left)
    (hclosing : Stands source char stop left) :
    ∃ node, wrap char left start stop nodes = [node] ∧
      PairedNodes source (start - left) (stop + left) [node] := by
  induction left using Nat.strongRecOn generalizing start stop nodes with
  | ind left ih =>
      match left with
      | 0 => exact absurd hpos (Nat.lt_irrefl 0)
      | 1 => exact ⟨_, rfl, paired_group (.inl rfl) his hinner hfits hopening hclosing⟩
      | 2 => exact ⟨_, rfl, paired_group (.inr rfl) his hinner hfits hopening hclosing⟩
      | left + 3 =>
          have htwoOpen : Stands source char (start - 2) 2 := by
            intro i hlt
            have := hopening (left + 1 + i) (by omega)
            rwa [show start - (left + 3) + (left + 1 + i) = start - 2 + i by omega] at this
          have htwoClose : Stands source char stop 2 := fun i hlt => hclosing i (by omega)
          have hpair := paired_group (.inr rfl) his hinner (by omega) htwoOpen htwoClose
          have houter := ih (left + 1) (by omega) hpair (by omega) (by omega)
            (by
              intro i hlt
              have := hopening i (by omega)
              rwa [show start - (left + 3) + i = start - 2 - (left + 1) + i by omega] at this)
            (by
              intro i hlt
              have := hclosing (2 + i) (by omega)
              rwa [← Nat.add_assoc] at this)
          rwa [show start - 2 - (left + 1) = start - (left + 3) by omega,
            show stop + 2 + (left + 1) = stop + (left + 3) by omega] at houter

/-! ## States -/

def Stays (source : Text) (start stop : Nat) (state : State) : Prop :=
  ∃ place, Opened source start state.openers place ∧
    PairedNodes source place stop state.nodes.reverse

theorem Stays.widen {state : State} (h : Stays source start stop state) {last : Nat}
    (hle : stop ≤ last) : Stays source start last state := by
  obtain ⟨place, hopeners, hnodes⟩ := h
  exact ⟨place, hopeners, hnodes.widen (Nat.le_refl _) hle⟩

theorem Stays.push {state : State} (h : Stays source start stop state) {last : Nat}
    {node : InlineNode} (hpaired : PairedNodes source stop last [node]) :
    Stays source start last { state with nodes := node :: state.nodes } := by
  obtain ⟨place, hopeners, hnodes⟩ := h
  refine ⟨place, hopeners, ?_⟩
  rw [List.reverse_cons]
  exact hnodes.append hpaired

theorem find?_eq_some {char : Char} {size floor height : Nat} {both : Bool}
    {passed openers above below : List Opener} {opener : Opener}
    (h : find? char size both floor height passed openers = some (above, opener, below)) :
    passed.reverse ++ openers = above ++ opener :: below ∧ opener.char = char := by
  induction openers generalizing height passed with
  | nil => cases h
  | cons first rest ih =>
      rw [find?] at h
      split at h
      · cases h
      split at h
      · next hfit =>
          cases h
          refine ⟨rfl, ?_⟩
          simp only [fits, Bool.and_eq_true, decide_eq_true_eq] at hfit
          exact hfit.1.1
      · have hlater := ih h
        rwa [List.reverse_cons, List.append_assoc] at hlater

/-- Delimiters of the run at `position` close as many of an opener, and those between go. -/
theorem stays_pair (context : InlineContext) (floor : Nat) {run : Run} {used : Nat} {state : State}
    {above below : List Opener} {opener : Opener} (h : Stays source start position state)
    (hwhole : state.openers = above ++ opener :: below) (hsame : opener.char = run.char)
    (hpos : 0 < used) (henough : used ≤ opener.left)
    (hstands : Stands source run.char position used) :
    Stays source start (position + used)
      (if opener.left = used then
        ⟨below, wrap run.char used (opener.start + opener.left) position
          (flatten context above state.nodes).reverse ++ opener.before, floor⟩
      else
        ⟨{ opener with left := opener.left - used } :: below,
          wrap run.char used (opener.start + opener.left) position
            (flatten context above state.nodes).reverse, floor⟩) := by
  obtain ⟨place, hopeners, hnodes⟩ := h
  rw [hwhole] at hopeners
  obtain ⟨inside, ⟨lower, hrest, hbefore, hchar, hsome, hopens, hle⟩, hpassed⟩ := hopeners.split
  have hinner := (paired_flatten context hpassed hnodes).widen hle (Nat.le_refl position)
  rw [hsame] at hchar hopens
  have hopening : Stands source run.char (opener.start + opener.left - used) used := by
    intro i hlt
    have := hopens (opener.left - used + i) (by omega)
    rwa [show opener.start + (opener.left - used + i) =
      opener.start + opener.left - used + i by omega] at this
  obtain ⟨node, hwrapped, hpair⟩ := exists_wrap hchar hinner hpos (by omega) hopening hstands
  rw [hwrapped]
  split
  · next hall =>
      have hfrom' : opener.start + opener.left - used = opener.start := by omega
      rw [hfrom'] at hpair
      refine ⟨lower, hrest, ?_⟩
      rw [List.singleton_append, List.reverse_cons]
      exact hbefore.append hpair
  · next hfewer =>
      refine ⟨opener.start + opener.left - used, ⟨lower, hrest, hbefore, ?_, ?_, ?_, ?_⟩, hpair⟩
      · rwa [hsame]
      · exact Nat.sub_pos_of_lt (by omega)
      · intro i hlt
        rw [hsame]
        exact hopens i (Nat.lt_of_lt_of_le hlt (Nat.sub_le _ _))
      · change opener.start + (opener.left - used) ≤ _
        omega

theorem stays_close (context : InlineContext) (run : Run) (fuel : Nat) {left : Nat}
    {state : State} (h : Stays source start position state) (hpos : 0 < left)
    (hstands : Stands source run.char position left) :
    Stays source start (close context run fuel left position state).2.1
        (close context run fuel left position state).2.2 ∧
      Stands source run.char (close context run fuel left position state).2.1
        (close context run fuel left position state).1 ∧
      (close context run fuel left position state).2.1 +
        (close context run fuel left position state).1 = position + left := by
  induction fuel generalizing left position state with
  | zero => exact ⟨h, hstands, rfl⟩
  | succ fuel ih =>
      rw [close]
      simp only
      split
      · refine ⟨?_, hstands, rfl⟩
        split <;> exact h
      · next above opener below hfound =>
          obtain ⟨hwhole, hsame⟩ := find?_eq_some hfound
          have hsome : 0 < opener.left := by
            obtain ⟨place, hopeners, -⟩ := h
            rw [List.reverse_nil, List.nil_append] at hwhole
            rw [hwhole] at hopeners
            obtain ⟨-, ⟨-, -, -, -, hsome, -⟩, -⟩ := hopeners.split
            exact hsome
          have hpaired := stays_pair context (min state.floor below.length) h hwhole hsame
            (show 0 < min left opener.left by omega) (Nat.min_le_right _ _)
            (fun i hlt => hstands i (Nat.lt_of_lt_of_le hlt (Nat.min_le_left _ _)))
          split
          · next hall =>
              rw [← hall] at hpaired ⊢
              exact ⟨hpaired, fun i hlt => absurd hlt (Nat.not_lt_zero i), rfl⟩
          · next hfewer =>
              have hbehind : Stands source run.char (position + min left opener.left)
                  (left - min left opener.left) := by
                intro i hlt
                have := hstands (min left opener.left + i) (by omega)
                rwa [← Nat.add_assoc] at this
              obtain ⟨hstays, hstands', hsum⟩ := ih hpaired (by omega) hbehind
              exact ⟨hstays, hstands', by omega⟩

/-- A run closes what it can, and what is left of it opens or is text. -/
theorem stays_run (context : InlineContext) (last : Bool) {run : Run} {span : Span}
    {state : State} (h : Stays source start span.start state)
    (hstands : run.StandsAt source span.start) :
    Stays source start (span.start + run.size) (step context last (.run run span) state) := by
  rw [step]
  generalize hclosed : (if run.closes then close context run run.size run.size span.start state
    else (run.size, span.start, state)) = result
  obtain ⟨left, place, behind⟩ := result
  have ⟨hstays, hopens, hsum⟩ : Stays source start place behind ∧
      Stands source run.char place left ∧ place + left = span.start + run.size := by
    split at hclosed
    · have := stays_close context run run.size h hstands.pos hstands.stands
      rwa [hclosed] at this
    · cases hclosed
      exact ⟨h, hstands.stands, rfl⟩
  rw [← hsum]
  simp only
  split
  · next hnone => simpa [hnone] using hstays
  · next hsome =>
      split
      · obtain ⟨lower, hopeners, hnodes⟩ := hstays
        exact ⟨place + left, ⟨lower, hopeners, hnodes, hstands.char, Nat.pos_of_ne_zero hsome,
          hopens, Nat.le_refl _⟩, .nil (Nat.le_refl _)⟩
      · exact hstays.push (.atom (Nat.le_add_right _ _) _ _)

/-- Siblings of which the runs alone are not yet paired. -/
inductive Siblings (source : Text) : (start stop : Nat) → List InlineNode → Prop
  | nil {start stop : Nat} (hle : start ≤ stop) : Siblings source start stop []
  | run {start stop : Nat} {run : Run} {span : Span} {rest : List InlineNode}
      (hle : start ≤ span.start) (hstands : run.StandsAt source span.start)
      (hlater : Siblings source (span.start + run.size) stop rest) :
      Siblings source start stop (.run run span :: rest)
  | node {start middle stop : Nat} {node : InlineNode} {rest : List InlineNode}
      (hsettled : isRun node = false) (hpaired : PairedNodes source start middle [node])
      (hlater : Siblings source middle stop rest) : Siblings source start stop (node :: rest)

theorem stays_step (context : InlineContext) (last : Bool) {node : InlineNode}
    (hsettled : isRun node = false) {state : State} (h : Stays source start position state)
    (hpaired : PairedNodes source position stop [node]) :
    Stays source start stop (step context last node state) := by
  cases node with
  | run run span => cases hsettled
  | hardBreak backslash span =>
      have hle := Paired.le hpaired
      rw [step]
      split
      · exact h.push hpaired
      split
      · exact h.push (.atom hle _ _)
      · exact h.widen hle
  | atom content span => exact h.push hpaired
  | group tag span children => exact h.push hpaired

theorem stays_steps (context : InlineContext) {nodes : List InlineNode} {state : State}
    (h : Stays source start position state) (hsiblings : Siblings source position stop nodes) :
    Stays source start stop (steps context state nodes) := by
  induction hsiblings generalizing state with
  | nil hle => exact h.widen hle
  | run hle hstands _ ih => exact ih (stays_run context _ (h.widen hle) hstands)
  | node hsettled hpaired _ ih => exact ih (stays_step context _ hsettled h hpaired)

theorem paired_resolve (context : InlineContext) {nodes : List InlineNode}
    (h : Siblings source start stop nodes) :
    PairedNodes source start stop (resolve context nodes) := by
  rw [resolve]
  split
  · have hfirst : Stays source start start {} :=
      ⟨start, Nat.le_refl _, .nil (Nat.le_refl _)⟩
    obtain ⟨place, hopeners, hbehind⟩ := stays_steps context hfirst h
    exact paired_flatten context hopeners hbehind
  · next hnone =>
      clear context
      induction h with
      | nil hle => exact .nil hle
      | run => simp [isRun] at hnone
      | node hsettled hpaired _ ih =>
          have hlater := ih (by simpa [hsettled] using hnone)
          exact hpaired.append hlater

theorem siblings_resolveInsides (context : InlineContext) {nodes : List InlineNode}
    (h : Row source start stop nodes) :
    Siblings source start stop (resolveInsides context nodes) := by
  induction h with
  | nil hle => exact .nil hle
  | atom content span _ ih => exact .node rfl (.atom (Nat.le_refl _) content span) ih
  | run hle hstands _ ih => exact .run hle hstands ih
  | hardBreak backslash span _ ih =>
      exact .node rfl (.hardBreak (Nat.le_refl _) backslash span) ih
  | link image form destination title span _ _ hinside hlater =>
      exact .node rfl ((paired_resolve context hinside).group rfl span) hlater

/-- All delimiters of a row are paired, those in its links among each other. -/
theorem paired_row (context : InlineContext) {nodes : List InlineNode}
    (h : Row source start stop nodes) :
    PairedNodes source start stop (resolve context (resolveInsides context nodes)) :=
  paired_resolve context (siblings_resolveInsides context h)

end Emphasis

end Canonmark.Source
