import Canonmark.Proofs.Source.Literal
import Canonmark.Proofs.Wrapped.Openings
import Canonmark.Proofs.Wrapped.Starts

/-!
# Literal text on two sides

Code, metadata and HTML in which no bracket opens is read alike with and without the marks. How far
a block reaches is decided at the fronts of its lines, and for some blocks of HTML by whole lines.
-/

namespace Canonmark.SpacedDestination

open Source LeafReader

variable {marks : List Nat} {containers : List Container}

theorem Untouched.line_side {phase : Phase} {marked : Marked} (h : Untouched marked)
    (hwoven : Woven phase marked) : ∃ text : Text, ∀ wrapped,
      (marked.side wrapped).take (lineLength (marked.side wrapped)) = text ∧
        lineLength (marked.side wrapped) = text.length ∧
          (Marked.side wrapped (line marked)).length = text.length := by
  obtain ⟨text, htext⟩ := h
  refine ⟨text, fun wrapped => ?_⟩
  have htake := hwoven.take_lineLength wrapped
  have hlength := hwoven.lineLength wrapped
  rw [htext, Marked.side_plain] at htake hlength
  exact ⟨htake, hlength, by rw [htext, Marked.side_plain]⟩

theorem Untouched.literalLine {phase : Phase} {marked : Marked} (h : Untouched marked)
    (hwoven : Woven phase marked) (kind : Text → LiteralPiece) (indent : Nat) :
    ∃ contents : List LiteralPiece, ∀ wrapped position,
      (LeafReader.literalLine kind indent position (marked.side wrapped)).map Prod.fst =
      contents := by
  obtain ⟨text, htext⟩ := h.line_side hwoven
  refine ⟨(LeafReader.literalLine kind indent 0 (marked.side false)).map Prod.fst,
    fun wrapped position => ?_⟩
  simp only [LeafReader.literalLine, (htext wrapped).1, (htext false).1, List.map_append,
    List.map_map]
  congr 1
  · split <;> rfl
  · simp only [lineParts]
    split
    · simp only [List.filter_cons]
      split <;> split <;> rfl
    · simp only [List.filter_cons]
      split <;> rfl

theorem lineParts_eq {position : Nat} {text : Text} (hcr : '\r' ∉ text) :
    lineParts position text = [(text, .ofLength position text.length)] := by
  simp only [lineParts]
  rw [if_neg]
  simp only [Bool.and_eq_true, decide_eq_true_eq, not_and]
  intro _ hhead
  obtain ⟨rest, hrest⟩ := List.head?_eq_some_iff.mp hhead
  exact hcr (List.mem_of_mem_drop (hrest ▸ List.mem_cons_self))

theorem free_literalLine {kind : Text → LiteralPiece} {indent position : Nat} {text : Text}
    (hcr : '\r' ∉ text) (h : Free marks (LeafReader.literalLine kind indent position text)) :
    ∀ p ∈ marks, ¬(position ≤ p ∧ p < position + lineLength text) := by
  intro p hp hin
  have hline : (text.take (lineLength text)).length = lineLength text := by
    rw [List.length_take, Nat.min_eq_left]
    clear h hin hcr
    induction text with
    | nil => exact Nat.le_refl _
    | cons c rest ih =>
        rw [lineLength]
        split
        · simp
        · simpa using ih
  have hparts := @lineParts_eq position (text.take (lineLength text))
    fun hmem => hcr (List.mem_of_mem_take hmem)
  have hempty : (text.take (lineLength text)).isEmpty = false := by
    cases hcase : text.take (lineLength text) with
    | nil =>
        rw [hcase] at hline
        simp only [List.length_nil] at hline
        omega
    | cons c rest => rfl
  refine h (kind (text.take (lineLength text)), .ofLength position (lineLength text)) ?_ p hp hin
  simp [LeafReader.literalLine, hparts, hempty, hline]

theorem Placed.untouchedLine {position indent : Nat} {kind : Text → LiteralPiece} {marked : Marked}
    (h : Placed marks position marked)
    (hfree : Free marks (LeafReader.literalLine kind indent position (marked.side false))) :
    Untouched marked :=
  h.untouched (free_literalLine (Woven.carriageReturn h.ready false) hfree)

theorem Free.reverse {α : Type} {pieces : List (α × Span)} (h : Free marks pieces.reverse) :
    Free marks pieces := fun piece hpiece => h piece (List.mem_reverse.mpr hpiece)

theorem length_behindLine_drop {marked : Marked} (h : marked ≠ []) (n : Nat) :
    (behindLine (marked.drop n)).length < marked.length := by
  by_cases hdrop : marked.drop n = []
  · rw [hdrop]
    exact List.length_pos_iff.mpr h
  · exact (length_behindLine_lt hdrop).trans_le (by simp)

theorem Passes.length_side {marked passed rest : Marked} (h : Passes marked passed rest)
    (hready : Ready marked) (hlength : rest.length < marked.length) (wrapped : Bool) :
    (rest.side wrapped).length < (marked.side wrapped).length := by
  have hsplit := h.split
  rcases passed with - | ⟨mark, passed⟩
  · rw [hsplit] at hlength
    simp at hlength
  · rcases hready.cases with hnil | ⟨c, rest', hcons, -⟩
    · rw [hnil] at hsplit
      cases hsplit
    · rw [hcons] at hsplit
      cases hsplit
      have hside := congrArg List.length (Marked.side_append wrapped passed rest)
      rw [List.length_append] at hside
      rw [hcons, Marked.side_cons_false, List.length_cons]
      exact Nat.lt_succ_of_le (hside ▸ Nat.le_add_left _ _)

theorem Passes.length_le {marked passed rest : Marked} (h : Passes marked passed rest) :
    rest.length ≤ marked.length := by
  rw [h.split, List.length_append]
  omega

theorem Passes.shorter {marked passed rest : Marked} (h : Passes marked passed rest)
    (hpos : 0 < (Marked.side false passed).length) :
    rest.length < marked.length := by
  rcases passed with - | ⟨mark, passed⟩
  · simp at hpos
  · rw [h.split, List.length_append, List.length_cons]
    omega

theorem Placed.head {position : Nat} {marked : Marked} {head : Head}
    (h : Placed marks position marked) (hhead : (Head.start marked).Leads head) :
    Placed marks (position + head.taken) head.rest := by
  obtain ⟨first, hfirst, hwidth⟩ := hhead.passes
  have hplaced := h.passes hfirst
  have hwidth := hwidth false
  rwa [show (Marked.side false first).length = head.taken by simpa [Head.start] using hwidth]
    at hplaced

structure NextLine (marked : Marked) (head : Head) (passed : Marked) : Prop where
  passes : Passes marked passed (behindLine head.rest)
  length : ∀ wrapped, (Marked.side wrapped passed).length =
    head.taken + (Marked.side wrapped (line head.rest)).length
  shorter : (behindLine head.rest).length < marked.length
  sideShorter : ∀ wrapped, (Marked.side wrapped (behindLine head.rest)).length <
    (marked.side wrapped).length

theorem Head.nextLine {marked : Marked} {head : Head} (h : Ready marked) (hnil : marked ≠ [])
    (hhead : (Head.start marked).Leads head) : ∃ passed, NextLine marked head passed := by
  obtain ⟨first, hfirst, hwidth⟩ := hhead.passes
  have hpasses : Passes marked _ _ := hfirst.trans (Passes.line hhead.ready)
  have hshorter : (behindLine head.rest).length < marked.length := by
    obtain ⟨k, -, hdrop, -⟩ := hhead.clear
    exact hdrop ▸ length_behindLine_drop hnil k
  refine ⟨_, hpasses, fun wrapped => ?_, hshorter, hpasses.length_side h hshorter⟩
  have hwidth := hwidth wrapped
  simp only [Head.start, Nat.zero_add] at hwidth
  rw [Marked.side_append, List.length_append, hwidth]

theorem within_nil (containers : List Container) :
    ∃ inside, LineHead.within containers [] = (inside, ⟨[], 0, 0, 0⟩) := by
  have hcontinue (container : Container) :
      LineHead.continue? container ⟨[], 0, 0, 0⟩ = none ∨
        LineHead.continue? container ⟨[], 0, 0, 0⟩ = some ⟨[], 0, 0, 0⟩ := by
    have htake (columns : Nat) : ∃ found, LineHead.takeExactly columns ⟨[], 0, 0, 0⟩ =
        (found, ⟨[], 0, 0, 0⟩) := by
      cases columns <;>
        simp [LineHead.takeExactly, LineHead.takeMissing, LineHead.takeColumns]
    cases container with
    | quote =>
        left
        obtain ⟨found, htake⟩ := htake 3
        simp [LineHead.continue?, htake, LineHead.quoteMarker?]
    | list tight marker number => exact .inr rfl
    | item indent =>
        right
        obtain ⟨found, htake⟩ := htake indent
        simp [LineHead.continue?, htake, LineHead.atEol]
    | footnote label =>
        right
        obtain ⟨found, htake⟩ := htake 4
        simp [LineHead.continue?, htake, LineHead.atEol]
  have hall : ∃ n, LineHead.continuation containers ⟨[], 0, 0, 0⟩ = (n, ⟨[], 0, 0, 0⟩) := by
    induction containers with
    | nil => exact ⟨0, rfl⟩
    | cons container containers ih =>
        obtain ⟨n, ih⟩ := ih
        rcases hcontinue container with hnone | hsome
        · exact ⟨0, by simp [LineHead.continuation, hnone]⟩
        · exact ⟨n + 1, by simp [LineHead.continuation, hsome, ih]⟩
  obtain ⟨n, hall⟩ := hall
  exact ⟨decide (n = containers.length), by rw [LineHead.within, LineHead.start, hall]⟩

theorem Ready.ending {marked : Marked} (h : Ready marked) :
    Clear ((Source.blankLine? (marked.side false)).getD 0) marked := by
  cases heq : Source.blankLine? (marked.side false) with
  | none => exact Clear.zero h
  | some ending => exact h.blankLine?.clear ending heq

/-- No bracket opens in the literal text of a leaf. -/
def LeafFree (marks : List Nat) (leaf : LeafBlock) : Prop :=
  ∀ literal ∈ leaf.literals false, Free marks literal.pieces

/-- The same leaf with the marks and without them, but for its inline content. -/
structure LeafPair (marked : Marked) (position : Nat) (lenient strict : LeafRead) : Prop where
  literals : ∀ inFootnote, (lenient.leaf.literals inFootnote).map Literal.content =
    (strict.leaf.literals inFootnote).map Literal.content
  passes : ∃ passed rest, Passes marked passed rest ∧
    (marked ≠ [] → rest.length < marked.length) ∧ lenient.rest = rest.side true ∧
      strict.rest = rest.side false ∧ strict.position = position + (passed.side false).length

section

variable {σ γ ρ δ : Type} {view : σ → γ} {outcome : ρ → δ × Nat × Text}
  {read next : Nat → σ → Nat → Text → ρ} {marked first behind passed rest : Marked}

/--
Lines are read alike with the marks and without them: from states that look the same, a reader has
the same outcome, passes the same lines and leaves the same ones.
-/
structure ReadsAlike (view : σ → γ) (outcome : ρ → δ × Nat × Text)
    (read : Nat → σ → Nat → Text → ρ) (marked passed rest : Marked) : Prop where
  passes : Passes marked passed rest
  alike : ∀ looks, ∃ result, ∀ wrapped fuel state position, view state = looks →
    (marked.side wrapped).length < fuel →
      outcome (read fuel state position (marked.side wrapped)) =
        (result, position + (Marked.side wrapped passed).length, rest.side wrapped)

theorem ReadsAlike.stop (hpasses : Passes marked passed rest) (result : γ → δ)
    (hread : ∀ wrapped fuel state position,
      outcome (read (fuel + 1) state position (marked.side wrapped)) =
        (result (view state), position + (Marked.side wrapped passed).length,
          rest.side wrapped)) :
    ReadsAlike view outcome read marked passed rest := by
  refine ⟨hpasses, fun looks => ⟨result looks, fun wrapped fuel state position hview hfuel => ?_⟩⟩
  obtain ⟨fuel, rfl⟩ := Nat.exists_eq_succ_of_ne_zero (Nat.ne_zero_of_lt hfuel)
  rw [← hview]
  exact hread wrapped fuel state position

theorem ReadsAlike.line (h : ReadsAlike view outcome next behind passed rest)
    (hpasses : Passes marked first behind)
    (hshort : ∀ wrapped, (Marked.side wrapped behind).length < (marked.side wrapped).length)
    (push : γ → γ)
    (hread : ∀ wrapped fuel state position, ∃ added, view added = push (view state) ∧
      read (fuel + 1) state position (marked.side wrapped) =
        next fuel added (position + (Marked.side wrapped first).length) (behind.side wrapped)) :
    ReadsAlike view outcome read marked (first ++ passed) rest := by
  refine ⟨hpasses.trans h.passes, fun looks => ?_⟩
  obtain ⟨result, halike⟩ := h.alike (push looks)
  refine ⟨result, fun wrapped fuel state position hview hfuel => ?_⟩
  obtain ⟨fuel, rfl⟩ := Nat.exists_eq_succ_of_ne_zero (Nat.ne_zero_of_lt hfuel)
  obtain ⟨added, hadded, hstep⟩ := hread wrapped fuel state position
  have hless := hshort wrapped
  rw [Nat.succ_eq_add_one, hstep,
    halike wrapped fuel added _ (hview ▸ hadded) (by omega), Marked.side_append,
    List.length_append, Nat.add_assoc]

end

def contents (pieces : List LocatedPiece) : List LiteralPiece := pieces.map Prod.fst

/-- What is found in a line depends on its contents only. -/
theorem Untouched.exists_push {phase : Phase} {marked : Marked} (h : Untouched marked)
    (hwoven : Woven phase marked) (kind : Text → LiteralPiece) (indent : Nat) :
    ∃ push : List LiteralPiece → List LiteralPiece, ∀ wrapped position pieces,
      contents ((LeafReader.literalLine kind indent position (marked.side wrapped)).reverse ++
        pieces) = push (contents pieces) := by
  obtain ⟨line, hline⟩ := h.literalLine hwoven kind indent
  refine ⟨(line.reverse ++ ·), fun wrapped position pieces => ?_⟩
  rw [contents, List.map_append, List.map_reverse, hline]
  rfl

/-- No bracket opens in a line that is among pieces in which none does. -/
theorem Placed.untouched_of_pieces {position indent : Nat} {kind : Text → LiteralPiece}
    {marked : Marked} {all pieces : List LocatedPiece} (h : Placed marks position marked)
    (hall : ∃ more, all = more ++
      ((LeafReader.literalLine kind indent position (marked.side false)).reverse ++ pieces))
    (hfree : Free marks all) : Untouched marked := by
  obtain ⟨more, rfl⟩ := hall
  exact h.untouchedLine hfree.of_append.2.of_append.1.reverse

/-! ## Fenced code -/

theorem fencedFrom_pieces {indent size fuel position : Nat} {char : Char}
    {pieces : List LocatedPiece} {text : Text} :
    ∃ more, (fencedFrom containers indent char size fuel pieces position text).1 =
      more ++ pieces := by
  fun_induction fencedFrom containers indent char size fuel pieces position text with
  | case1 => exact ⟨[], rfl⟩
  | case2 => exact ⟨[], rfl⟩
  | case3 => exact ⟨[], rfl⟩
  | case4 =>
      rename_i ih
      obtain ⟨more, ih⟩ := ih
      exact ⟨_, ih.trans (List.append_assoc _ _ _).symm⟩

theorem fencedFrom_nil {indent size fuel position : Nat} {char : Char} {pieces : List LocatedPiece}
    (hindent : indent < 4) :
    fencedFrom containers indent char size (fuel + 1) pieces position [] =
      (pieces, position, position, []) := by
  obtain ⟨inside, hwithin⟩ := within_nil containers
  have htake (columns : Nat) (h : 0 < columns) : LineHead.takeExactly columns ⟨[], 0, 0, 0⟩ =
      (false, ⟨[], 0, 0, 0⟩) := by
    have hcolumns : ¬columns ≤ 0 := by omega
    simp [LineHead.takeExactly, LineHead.takeMissing, LineHead.takeColumns, hcolumns]
    omega
  have hcontent : (LineHead.takeExactly indent ⟨[], 0, 0, 0⟩).2 = ⟨[], 0, 0, 0⟩ := by
    cases indent with
    | zero => simp [LineHead.takeExactly, LineHead.takeMissing]
    | succ indent => rw [htake _ (Nat.succ_pos _)]
  cases inside with
  | false => simp [fencedFrom, hwithin]
  | true =>
      have hclosing : Source.closingFence? char size [] = some 0 := rfl
      have hblank : (Source.blankLine? []).getD 0 = 0 := rfl
      simp [fencedFrom, hwithin, hcontent, htake (4 - indent) (by omega), hclosing, hblank]

def codeOutcome (read : List LocatedPiece × Nat × Nat × Text) : List LiteralPiece × Nat × Text :=
  (contents read.1, read.2.2)

theorem Placed.fencedFrom {indent size position fuel : Nat} {char : Char} {marked : Marked}
    {pieces : List LocatedPiece} (hindent : indent < 4) (hchar : char = '\x60' ∨ char = '~')
    (h : Placed marks position marked) (hfuel : (marked.side false).length < fuel)
    (hfree : Free marks (LeafReader.fencedFrom containers indent char size fuel pieces position
      (marked.side false)).1) :
    ∃ passed rest, ReadsAlike contents codeOutcome
      (LeafReader.fencedFrom containers indent char size) marked passed rest := by
  induction fuel generalizing marked position pieces with
  | zero => exact absurd hfuel (Nat.not_lt_zero _)
  | succ fuel ih =>
  by_cases hnil : marked = []
  · subst hnil
    exact ⟨[], [], .stop (Passes.refl Ready.nil) id fun wrapped fuel pieces position => by
      simp [fencedFrom_nil hindent, codeOutcome]⟩
  obtain ⟨inside, head, hhead, hwithin⟩ := h.ready.within containers
  obtain ⟨found, content, hcontent, hsideContent⟩ := Head.takeExactly hhead.ready indent
  obtain ⟨indented, closing, hclosing, hsideClosing⟩ :=
    Head.takeExactly hcontent.ready (4 - indent)
  cases inside with
  | false =>
      exact ⟨[], marked, .stop (Passes.refl h.ready) id fun wrapped fuel pieces position => by
        simp [LeafReader.fencedFrom, hwithin, codeOutcome]⟩
  | true =>
  have hends := hclosing.ready.closingFence? size hchar
  have hrest (wrapped : Bool) :
      (closing.side wrapped).rest = Marked.side wrapped closing.rest := rfl
  have hcontentRest (wrapped : Bool) :
      (content.side wrapped).rest = Marked.side wrapped content.rest := rfl
  cases hclose : (if indented then none
      else Source.closingFence? char size (Marked.side false closing.rest)) with
  | some k =>
      obtain ⟨hindented, hk⟩ := Option.ite_none_left_eq_some.mp hclose
      have hfence := hends.clear k hk
      have hblank := hfence.ready.blankLine?
      obtain ⟨first, hfirst, hwidth⟩ := ((hhead.trans hcontent).trans hclosing).passes
      have hending := hfence.ready.ending
      refine ⟨_, _, .stop ((hfirst.trans hfence.passes).trans hending.passes) id
        fun wrapped fuel pieces position => ?_⟩
      have hwidth := hwidth wrapped
      simp only [Head.start, Nat.zero_add] at hwidth
      simp only [LeafReader.fencedFrom, hwithin, hsideContent, hsideClosing, hrest,
        hends.side wrapped, hclose, hfence.drop_side, hblank.side wrapped, hending.drop_side,
        Marked.side_append, List.length_append, hfence.length_take, hending.length_take, hwidth]
      simp [codeOutcome, Head.side, Nat.add_assoc]
  | none =>
      have hleads := hhead.trans hcontent
      obtain ⟨first, hnext⟩ := Head.nextLine h.ready hnil hleads
      have hstep (wrapped : Bool) (fuel : Nat) (pieces : List LocatedPiece) (position : Nat) :
          LeafReader.fencedFrom containers indent char size (fuel + 1) pieces position
              (marked.side wrapped) =
            LeafReader.fencedFrom containers indent char size fuel
              ((LeafReader.literalLine .text content.pending (position + content.taken)
                (Marked.side wrapped content.rest)).reverse ++ pieces)
              (position + (Marked.side wrapped first).length)
              (Marked.side wrapped (behindLine content.rest)) := by
        simp only [LeafReader.fencedFrom, hwithin, hsideContent, hsideClosing, hrest,
          hends.side wrapped, hclose, hcontentRest]
        rw [Woven.drop_lineLength hcontent.ready, Woven.lineLength hcontent.ready,
          hnext.length wrapped, ← Nat.add_assoc]
        rfl
      rw [hstep] at hfree
      have hline := (h.head hleads).untouched_of_pieces fencedFrom_pieces hfree
      obtain ⟨push, hpush⟩ := hline.exists_push hcontent.ready .text content.pending
      have hshort := hnext.sideShorter false
      obtain ⟨passed, rest, hread⟩ := ih (h.passes hnext.passes) (by omega) hfree
      exact ⟨_, rest, hread.line hnext.passes hnext.sideShorter push
        fun wrapped fuel pieces position =>
          ⟨_, hpush wrapped _ pieces, hstep wrapped fuel pieces position⟩⟩

theorem Placed.fencedCode {indent size position : Nat} {char : Char} {marked : Marked}
    (hindent : indent < 4) (h : Placed marks position marked)
    (hfence : Source.fence? (marked.side false) = some (size, char))
    (hfree : LeafFree marks (LeafReader.fencedCode containers indent position char size
      (marked.side false)).leaf) (position' : Nat) :
    LeafPair marked position
      (LeafReader.fencedCode containers indent position' char size (marked.side true))
      (LeafReader.fencedCode containers indent position char size (marked.side false)) := by
  have hclear := h.ready.fence?.2 size char hfence
  have hchar : char = '\x60' ∨ char = '~' := by
    unfold Source.fence? at hfence
    split at hfence
    · cases hfence
    · obtain ⟨hchar, hfence⟩ := Option.ite_none_right_eq_some.mp hfence
      obtain ⟨-, heq⟩ := Option.ite_none_left_eq_some.mp hfence
      cases heq
      simpa using hchar
  obtain ⟨blanks, written, hsplit, hready, hblanks, hside⟩ := hclear.ready.run quiet_isBlank
  obtain ⟨first, hfirst, hwidth⟩ : ∃ first, Passes marked first (behindLine written) ∧
      ∀ wrapped, (Marked.side wrapped first).length =
        size + blanks.length + (Marked.side wrapped (line written)).length := by
    refine ⟨marked.take size ++ (Marked.plain blanks ++ line written), ⟨?_,
      Woven.ready_behindLine hready⟩, fun wrapped => ?_⟩
    · rw [List.append_assoc, List.append_assoc, line_append, ← hsplit, List.take_append_drop]
    · simp [hclear.length_take, Nat.add_assoc]
  have hread (wrapped : Bool) (position : Nat) :
      ∃ info span, LeafReader.fencedCode containers indent position char size
        (marked.side wrapped) =
          let result := LeafReader.fencedFrom containers indent char size
            ((marked.side wrapped).length + 1) [] (position + (Marked.side wrapped first).length)
              (Marked.side wrapped (behindLine written))
          ⟨.code (some info) result.1.reverse, span, result.2.2.1, result.2.2.2⟩ := by
    simp only [LeafReader.fencedCode, hclear.drop_side, countWhile, hside]
    rw [Woven.drop_lineLength hready, Woven.lineLength hready, hwidth]
    simp only [← Nat.add_assoc]
    exact ⟨_, _, rfl⟩
  have hfuel (wrapped : Bool) : (Marked.side wrapped (behindLine written)).length <
      (marked.side wrapped).length + 1 := by
    rw [hfirst.split, Marked.side_append, List.length_append]
    omega
  obtain ⟨info, span, hstrict⟩ := hread false position
  obtain ⟨info', span', hlenient⟩ := hread true position'
  rw [hstrict] at hfree
  obtain ⟨passed, rest, hpasses, halike⟩ := (h.passes hfirst).fencedFrom hindent hchar
    (hfuel false) (hfree _ List.mem_cons_self).reverse
  obtain ⟨code, halike⟩ := halike []
  have hresult := halike false _ [] (position + (Marked.side false first).length) rfl (hfuel false)
  have hresult' := halike true _ [] (position' + (Marked.side true first).length) rfl (hfuel true)
  simp only [codeOutcome, contents, Prod.mk.injEq] at hresult hresult'
  rw [hstrict, hlenient]
  have hsize : 0 < size := by
    unfold Source.fence? at hfence
    split at hfence
    · cases hfence
    · obtain ⟨-, hfence⟩ := Option.ite_none_right_eq_some.mp hfence
      obtain ⟨hthree, heq⟩ := Option.ite_none_left_eq_some.mp hfence
      cases heq
      simp only [Bool.or_eq_true, decide_eq_true_eq, not_or] at hthree
      omega
  have hshorter := hpasses.length_le.trans_lt
    (hfirst.shorter (by have := hwidth false; omega))
  refine ⟨fun inFootnote => ?_, first ++ passed, rest, hfirst.trans hpasses, fun _ => hshorter,
    congrArg Prod.snd hresult'.2, congrArg Prod.snd hresult.2, ?_⟩
  · simpa [LeafBlock.literals, Literal.content] using hresult'.1.trans hresult.1.symm
  · simp [hresult.2, Nat.add_assoc]

/-! ## Metadata -/

theorem metadataFrom_pieces {fuel position : Nat} {pieces : List LocatedPiece} {text : Text} :
    ∃ more, (metadataFrom containers fuel pieces position text).1 = more ++ pieces := by
  fun_induction metadataFrom containers fuel pieces position text with
  | case1 => exact ⟨[], rfl⟩
  | case2 => exact ⟨[], rfl⟩
  | case3 => exact ⟨[], rfl⟩
  | case4 =>
      rename_i ih
      obtain ⟨more, ih⟩ := ih
      exact ⟨_, ih.trans (List.append_assoc _ _ _).symm⟩

theorem metadataFrom_nil (fuel position : Nat) (pieces : List LocatedPiece) :
    metadataFrom containers fuel pieces position [] = (pieces, position, []) := by
  obtain ⟨inside, hwithin⟩ := within_nil containers
  induction fuel generalizing position pieces with
  | zero => rfl
  | succ fuel ih =>
      cases inside with
      | false => simp [metadataFrom, hwithin]
      | true =>
          have hclosing : Source.closingMetadata? [] = none := rfl
          have hline : LeafReader.literalLine .text 0 position [] = [] := rfl
          simp [metadataFrom, hwithin, hclosing, hline, lineLength, ih]

theorem Placed.metadataFrom {position fuel : Nat} {marked : Marked} {pieces : List LocatedPiece}
    (h : Placed marks position marked) (hfuel : (marked.side false).length < fuel)
    (hfree : Free marks (LeafReader.metadataFrom containers fuel pieces position
      (marked.side false)).1) :
    ∃ passed rest, ReadsAlike contents (Prod.map contents id)
      (LeafReader.metadataFrom containers) marked passed rest := by
  induction fuel generalizing marked position pieces with
  | zero => exact absurd hfuel (Nat.not_lt_zero _)
  | succ fuel ih =>
  by_cases hnil : marked = []
  · subst hnil
    exact ⟨[], [], .stop (Passes.refl Ready.nil) id fun wrapped fuel pieces position => by
      simp [metadataFrom_nil]⟩
  obtain ⟨inside, head, hhead, hwithin⟩ := h.ready.within containers
  cases inside with
  | false =>
      exact ⟨[], marked, .stop (Passes.refl h.ready) id fun wrapped fuel pieces position => by
        simp [LeafReader.metadataFrom, hwithin]⟩
  | true =>
  have hends := h.ready.closingMetadata?
  have hrest (wrapped : Bool) : (head.side wrapped).rest = Marked.side wrapped head.rest := rfl
  cases hclose : Source.closingMetadata? (marked.side false) with
  | some k =>
      have hk := hends.clear k hclose
      exact ⟨_, _, .stop hk.passes id fun wrapped fuel pieces position => by
        simp [LeafReader.metadataFrom, hwithin, hends.side wrapped, hclose, hk.drop_side,
          hk.length_take]⟩
  | none =>
      obtain ⟨first, hnext⟩ := Head.nextLine h.ready hnil hhead
      have hstep (wrapped : Bool) (fuel : Nat) (pieces : List LocatedPiece) (position : Nat) :
          LeafReader.metadataFrom containers (fuel + 1) pieces position (marked.side wrapped) =
            LeafReader.metadataFrom containers fuel
              ((LeafReader.literalLine .text head.pending (position + head.taken)
                (Marked.side wrapped head.rest)).reverse ++ pieces)
              (position + (Marked.side wrapped first).length)
              (Marked.side wrapped (behindLine head.rest)) := by
        simp only [LeafReader.metadataFrom, hwithin, hends.side wrapped, hclose, hrest]
        rw [Woven.drop_lineLength hhead.ready, Woven.lineLength hhead.ready,
          hnext.length wrapped, ← Nat.add_assoc]
        rfl
      rw [hstep] at hfree
      have hline := (h.head hhead).untouched_of_pieces metadataFrom_pieces hfree
      obtain ⟨push, hpush⟩ := hline.exists_push hhead.ready .text head.pending
      have hshort := hnext.sideShorter false
      obtain ⟨passed, rest, hread⟩ := ih (h.passes hnext.passes) (by omega) hfree
      exact ⟨_, rest, hread.line hnext.passes hnext.sideShorter push
        fun wrapped fuel pieces position =>
          ⟨_, hpush wrapped _ pieces, hstep wrapped fuel pieces position⟩⟩

theorem Placed.metadata {position : Nat} {marked : Marked} (h : Placed marks position marked)
    (hfree : LeafFree marks (LeafReader.metadata containers position (marked.side false)).leaf)
    (position' : Nat) :
    LeafPair marked position (LeafReader.metadata containers position' (marked.side true))
      (LeafReader.metadata containers position (marked.side false)) := by
  have hfirst := Passes.line h.ready
  have hfuel (wrapped : Bool) : (Marked.side wrapped (behindLine marked)).length <
      (marked.side wrapped).length + 1 := by
    have hsplit := congrArg (fun m => (Marked.side wrapped m).length) hfirst.split
    simp only [Marked.side_append, List.length_append] at hsplit
    omega
  have hread (wrapped : Bool) (position : Nat) :
      ∃ span, LeafReader.metadata containers position (marked.side wrapped) =
        let result := LeafReader.metadataFrom containers
          ((marked.side wrapped).length + 1) []
            (position + (Marked.side wrapped (line marked)).length)
            (Marked.side wrapped (behindLine marked))
        let ending := (Source.blankLine? result.2.2).getD 0
        ⟨.metadata result.1.reverse, span, result.2.1 + ending, result.2.2.drop ending⟩ := by
    simp only [LeafReader.metadata]
    rw [Woven.drop_lineLength h.ready, Woven.lineLength h.ready]
    exact ⟨_, rfl⟩
  obtain ⟨span, hstrict⟩ := hread false position
  obtain ⟨span', hlenient⟩ := hread true position'
  rw [hstrict] at hfree
  obtain ⟨passed, rest, hpasses, halike⟩ := (h.passes hfirst).metadataFrom
    (hfuel false) (hfree _ List.mem_cons_self).reverse
  obtain ⟨found, halike⟩ := halike []
  have hresult := halike false _ [] (position + (Marked.side false (line marked)).length) rfl
    (hfuel false)
  have hresult' := halike true _ [] (position' + (Marked.side true (line marked)).length) rfl
    (hfuel true)
  simp only [contents, Prod.map, Prod.mk.injEq, id] at hresult hresult'
  have hending := hpasses.ready.ending
  rw [hstrict, hlenient]
  refine ⟨fun inFootnote => ?_, _, _, (hfirst.trans hpasses).trans hending.passes, fun hnil =>
    (hpasses.trans hending.passes).length_le.trans_lt (length_behindLine_lt hnil), ?_, ?_, ?_⟩
  · simpa [LeafBlock.literals, Literal.content] using hresult'.1.trans hresult.1.symm
  · simp [hresult'.2, hpasses.ready.blankLine?.side, hending.drop_side]
  · simp [hresult.2, hending.drop_side]
  · simp [hresult.2, hending.length_take, Nat.add_assoc]

/-! ## HTML -/

/-- Whether a block of HTML ends with a line, before `head` on the next one. -/
def htmlEnds (ends : HtmlEnd) (inside : Bool) (line : Text) (head : LineHead) : Bool :=
  match ends with
  | .mark mark => !inside || Text.hasInfix mark line || head.rest.isEmpty
  | .blank => !inside || head.atEol || Source.isBlankLine head.rest

theorem htmlFrom_succ {ends : HtmlEnd} {fuel indent position : Nat} {pieces : List LocatedPiece}
    {text : Text} {inside : Bool} {head : LineHead}
    (hwithin : LineHead.within containers (text.drop (lineLength text)) = (inside, head)) :
    ∃ stop, htmlFrom containers ends (fuel + 1) pieces indent position text =
      if htmlEnds ends inside (text.take (lineLength text)) head then
        ((LeafReader.literalLine .html indent position text).reverse ++ pieces, stop,
          position + lineLength text, text.drop (lineLength text))
      else
        htmlFrom containers ends fuel
          ((LeafReader.literalLine .html indent position text).reverse ++ pieces) head.pending
            (position + lineLength text + head.taken) head.rest := by
  cases ends with
  | mark mark =>
      by_cases hline : (!inside || Text.hasInfix mark (text.take (lineLength text))) = true
      · exact ⟨_, by simp only [htmlFrom, hwithin, htmlEnds, hline, if_true, Bool.true_or]; rfl⟩
      · by_cases hrest : head.rest.isEmpty = true
        · exact ⟨_, by
            simp only [htmlFrom, hwithin, htmlEnds, hline, hrest, if_true, Bool.or_true]
            rfl⟩
        · exact ⟨0, by simp only [htmlFrom, hwithin, htmlEnds, hline, hrest]; rfl⟩
  | blank =>
      by_cases hline : (!inside || head.atEol) = true
      · exact ⟨_, by simp only [htmlFrom, hwithin, htmlEnds, hline, if_true, Bool.true_or]; rfl⟩
      · by_cases hrest : Source.isBlankLine head.rest = true
        · exact ⟨_, by
            simp only [htmlFrom, hwithin, htmlEnds, hline, hrest, if_true, Bool.or_true]
            rfl⟩
        · exact ⟨0, by simp only [htmlFrom, hwithin, htmlEnds, hline, hrest]; rfl⟩

theorem htmlFrom_pieces {ends : HtmlEnd} {fuel indent position : Nat} {pieces : List LocatedPiece}
    {text : Text} :
    ∃ more, (htmlFrom containers ends (fuel + 1) pieces indent position text).1 =
      more ++ ((LeafReader.literalLine .html indent position text).reverse ++ pieces) := by
  induction fuel generalizing pieces indent position text with
  | zero =>
      obtain ⟨stop, hstep⟩ := @htmlFrom_succ containers ends 0 indent position pieces text _ _ rfl
      rw [hstep]
      split <;> exact ⟨[], rfl⟩
  | succ fuel ih =>
      obtain ⟨stop, hstep⟩ :=
        @htmlFrom_succ containers ends (fuel + 1) indent position pieces text _ _ rfl
      rw [hstep]
      split
      · exact ⟨[], rfl⟩
      · obtain ⟨more, ih⟩ := @ih _ _ _ _
        exact ⟨_, ih.trans (List.append_assoc _ _ _).symm⟩

theorem Untouched.htmlFrom_succ {ends : HtmlEnd} {indent : Nat} {marked : Marked} {inside : Bool}
    {head : Head} (h : Untouched marked) (hready : Ready marked)
    (hhead : (Head.start (behindLine marked)).Leads head)
    (hwithin : ∀ wrapped, LineHead.within containers (Marked.side wrapped (behindLine marked)) =
      (inside, head.side wrapped)) :
    ∃ ended : Bool, (ended = false → head.rest ≠ []) ∧
      ∀ wrapped fuel pieces position, ∃ stop,
        LeafReader.htmlFrom containers ends (fuel + 1) pieces indent position
            (marked.side wrapped) =
          if ended then
            ((LeafReader.literalLine .html indent position (marked.side wrapped)).reverse ++ pieces,
              stop, position + (Marked.side wrapped (line marked)).length,
              Marked.side wrapped (behindLine marked))
          else
            LeafReader.htmlFrom containers ends fuel
              ((LeafReader.literalLine .html indent position (marked.side wrapped)).reverse ++
                pieces) head.pending
              (position + (Marked.side wrapped (line marked)).length + head.taken)
              (Marked.side wrapped head.rest) := by
  obtain ⟨text, htext⟩ := h.line_side hready
  have hdrop := Woven.drop_lineLength hready
  have hends (wrapped : Bool) : htmlEnds ends inside text (head.side wrapped) =
      htmlEnds ends inside text (head.side false) := by
    have hempty := hhead.ready.isEmpty_side wrapped
    have hblank := hhead.ready.isBlankLine wrapped
    cases ends with
    | mark mark => simp only [htmlEnds, Head.side, hempty]
    | blank =>
        simp only [htmlEnds, hhead.ready.atEol wrapped]
        simp only [Head.side, hblank]
  refine ⟨htmlEnds ends inside text (head.side false), fun hopen hrest => ?_,
    fun wrapped fuel pieces position => ?_⟩
  · cases ends <;> simp [htmlEnds, Head.side, hrest, LineHead.atEol] at hopen
  · obtain ⟨stop, hstep⟩ := @SpacedDestination.htmlFrom_succ containers ends fuel indent position
      pieces (marked.side wrapped) inside (head.side wrapped) (by rw [hdrop, hwithin])
    rw [(htext wrapped).1, hends, (htext wrapped).2.1, ← (htext wrapped).2.2] at hstep
    have hdrop := hdrop wrapped
    rw [(htext wrapped).2.1, ← (htext wrapped).2.2] at hdrop
    rw [hdrop] at hstep
    exact ⟨stop, hstep⟩

theorem Placed.htmlFrom {ends : HtmlEnd} {indent position fuel : Nat} {marked : Marked}
    {pieces : List LocatedPiece} (h : Placed marks position marked) (hnil : marked ≠ [])
    (hfuel : (marked.side false).length < fuel)
    (hfree : Free marks (LeafReader.htmlFrom containers ends fuel pieces indent position
      (marked.side false)).1) :
    ∃ passed rest, rest.length < marked.length ∧ ReadsAlike contents codeOutcome
      (fun fuel pieces => LeafReader.htmlFrom containers ends fuel pieces indent)
        marked passed rest := by
  induction fuel generalizing marked position pieces indent with
  | zero => exact absurd hfuel (Nat.not_lt_zero _)
  | succ fuel ih =>
  have hline := h.untouched_of_pieces htmlFrom_pieces hfree
  obtain ⟨push, hpush⟩ := hline.exists_push h.ready .html indent
  have hfirst := Passes.line h.ready
  obtain ⟨inside, head, hhead, hwithin⟩ := hfirst.ready.within containers
  obtain ⟨ended, hopen, hstep⟩ :=
    @Untouched.htmlFrom_succ containers ends indent _ _ _ hline h.ready hhead hwithin
  cases ended with
  | true =>
      refine ⟨_, _, length_behindLine_lt hnil, .stop hfirst push
        fun wrapped fuel pieces position => ?_⟩
      obtain ⟨stop, hstep⟩ := hstep wrapped fuel pieces position
      rw [hstep, if_pos rfl, ← hpush wrapped position pieces]
      rfl
  | false =>
      obtain ⟨first, hmarkers, hwidth⟩ := hhead.passes
      have hlength (wrapped : Bool) : (Marked.side wrapped (line marked ++ first)).length =
          (Marked.side wrapped (line marked)).length + head.taken := by
        rw [Marked.side_append, List.length_append]
        simpa [Head.start] using hwidth wrapped
      have hnext := hfirst.trans hmarkers
      have hshorter := hhead.shorter hnil
      have hshort := hnext.length_side h.ready hshorter
      have hstep (wrapped : Bool) (fuel : Nat) (pieces : List LocatedPiece) (position : Nat) :
          LeafReader.htmlFrom containers ends (fuel + 1) pieces indent position
              (marked.side wrapped) =
            LeafReader.htmlFrom containers ends fuel
              ((LeafReader.literalLine .html indent position (marked.side wrapped)).reverse ++
                pieces) head.pending
              (position + (Marked.side wrapped (line marked ++ first)).length)
              (Marked.side wrapped head.rest) := by
        obtain ⟨stop, hstep⟩ := hstep wrapped fuel pieces position
        rw [hstep, if_neg Bool.false_ne_true, hlength, Nat.add_assoc]
      rw [hstep] at hfree
      have hstrict := hshort false
      obtain ⟨passed, rest, hless, hread⟩ := ih (h.passes hnext) (hopen rfl) (by omega) hfree
      exact ⟨_, rest, hless.trans hshorter, hread.line hnext hshort push
        fun wrapped fuel pieces position =>
          ⟨_, hpush wrapped position pieces, hstep wrapped fuel pieces position⟩⟩

theorem Placed.html {ends : HtmlEnd} {indent position : Nat} {marked : Marked}
    (h : Placed marks position marked) (hnil : marked ≠ [])
    (hfree : LeafFree marks (LeafReader.html containers ends indent position
      (marked.side false)).leaf) (position' : Nat) :
    LeafPair marked position (LeafReader.html containers ends indent position' (marked.side true))
      (LeafReader.html containers ends indent position (marked.side false)) := by
  have hread (wrapped : Bool) (position : Nat) :
      ∃ span, LeafReader.html containers ends indent position (marked.side wrapped) =
        let result := LeafReader.htmlFrom containers ends
          ((marked.side wrapped).length + 1) [] indent position (marked.side wrapped)
        ⟨.html result.1.reverse, span, result.2.2.1, result.2.2.2⟩ := ⟨_, rfl⟩
  obtain ⟨span, hstrict⟩ := hread false position
  obtain ⟨span', hlenient⟩ := hread true position'
  rw [hstrict] at hfree
  obtain ⟨passed, rest, hless, hpasses, halike⟩ := h.htmlFrom hnil (Nat.lt_succ_self _)
    (hfree _ List.mem_cons_self).reverse
  obtain ⟨found, halike⟩ := halike []
  have hresult := halike false _ [] position rfl (Nat.lt_succ_self _)
  have hresult' := halike true _ [] position' rfl (Nat.lt_succ_self _)
  simp only [codeOutcome, contents, Prod.mk.injEq] at hresult hresult'
  rw [hstrict, hlenient]
  refine ⟨fun inFootnote => ?_, passed, rest, hpasses, fun _ => hless,
    congrArg Prod.snd hresult'.2, congrArg Prod.snd hresult.2, congrArg Prod.fst hresult.2⟩
  simpa [LeafBlock.literals, Literal.content] using hresult'.1.trans hresult.1.symm

/-! ## Indented code -/

/-- What is read of indented code before a line: all pieces, and those that are kept. -/
structure IndentedState where
  all : List LocatedPiece
  kept : CodeLines

namespace IndentedState

/-- A line is added to all pieces, and these are kept up to it unless it is blank. -/
def addLine (blank : Bool) (indent position : Nat) (text : Text) (state : IndentedState) :
    IndentedState :=
  let all := (LeafReader.literalLine .text indent position text).reverse ++ state.all
  ⟨all, if blank then state.kept else ⟨all, position + lineLength text⟩⟩

def looks (state : IndentedState) : List LiteralPiece × List LiteralPiece :=
  (contents state.all, contents state.kept.pieces)

end IndentedState

def readIndented (containers : List Container) (blank : Bool) (indent fuel : Nat)
    (state : IndentedState) (position : Nat) (text : Text) : CodeLines × Bool × Nat × Text :=
  indentedFrom containers fuel state.all state.kept blank indent position text

def indentedOutcome (read : CodeLines × Bool × Nat × Text) :
    (List LiteralPiece × Bool) × Nat × Text :=
  ((contents read.1.pieces, read.2.1), read.2.2)

section

variable {fuel indent position : Nat} {state : IndentedState} {blank inside indented : Bool}
  {text : Text} {head next : LineHead}

theorem readIndented_succ
    (hwithin : LineHead.within containers (text.drop (lineLength text)) = (inside, head))
    (hnext : head.takeExactly 4 = (indented, next)) :
    readIndented containers blank indent (fuel + 1) state position text =
      if !inside || !(indented || next.atEol) || next.rest.isEmpty then
        ((state.addLine blank indent position text).kept, blank, position + lineLength text,
          text.drop (lineLength text))
      else
        readIndented containers (Source.isBlankLine next.rest) next.pending fuel
          (state.addLine blank indent position text) (position + lineLength text + next.taken)
          next.rest := by
  simp only [readIndented, indentedFrom, hwithin, hnext]
  rfl

/-- What is kept stays, and all lines before a line that is kept are kept with it. -/
theorem readIndented_pieces :
    (readIndented containers blank indent fuel state position text).1.pieces = state.kept.pieces ∨
      ∃ more, (readIndented containers blank indent fuel state position text).1.pieces =
        more ++ state.all := by
  induction fuel generalizing state blank indent position text with
  | zero => exact .inl rfl
  | succ fuel ih =>
      rcases hwithin : LineHead.within containers (text.drop (lineLength text)) with ⟨inside, head⟩
      rcases hnext : head.takeExactly 4 with ⟨indented, next⟩
      rw [readIndented_succ hwithin hnext]
      split
      · cases blank with
        | true => exact .inl rfl
        | false => exact .inr ⟨_, rfl⟩
      · rcases @ih _ _ (state.addLine blank indent position text) _ _ with hkept | ⟨more, hall⟩
        · cases blank with
          | true => exact .inl hkept
          | false => exact .inr ⟨_, hkept⟩
        · exact .inr ⟨_, hall.trans (List.append_assoc _ _ _).symm⟩

end

theorem Ready.untouched_of_blank {marked : Marked} (h : Ready marked)
    (hblank : Source.isBlankLine (marked.side false) = true) : Untouched marked := by
  induction marked with
  | nil => exact ⟨[], rfl⟩
  | cons mark rest ih =>
      rcases h.cases with hnil | ⟨c, rest', hcons, hcr, -⟩
      · cases hnil
      cases hcons
      rw [Marked.side_cons_false, isBlankLine_cons hcr] at hblank
      by_cases hn : c = '\n'
      · exact ⟨[c], by simp [line, hn, Marked.plain]⟩
      · simp only [hn, decide_false, Bool.false_or, Bool.and_eq_true] at hblank
        have hback : c ≠ '\\' := by rintro rfl; cases hblank.1
        have hbracket : c ≠ ']' := by rintro rfl; cases hblank.1
        obtain ⟨text, htext⟩ := ih (h.tail hback hbracket) hblank.2
        exact ⟨c :: text, by simp [line, hn, htext, Marked.plain]⟩

/-- A line is untouched if it is blank, or if no bracket opens in what is kept of the code. -/
theorem Placed.untouched_of_indented {indent position fuel : Nat} {marked : Marked}
    {state : IndentedState} {blank : Bool} (h : Placed marks position marked)
    (hblank : blank = true → Source.isBlankLine (marked.side false) = true)
    (hfree : Free marks (readIndented containers blank indent (fuel + 1) state position
      (marked.side false)).1.pieces) : Untouched marked := by
  cases blank with
  | true => exact h.ready.untouched_of_blank (hblank rfl)
  | false =>
      rw [readIndented_succ rfl rfl] at hfree
      refine @Placed.untouchedLine marks position indent .text marked h ?_
      split at hfree
      · exact hfree.of_append.1.reverse
      · generalize Source.isBlankLine _ = blank at hfree
        rcases @readIndented_pieces containers fuel _ _
          (state.addLine false indent position (marked.side false)) blank _ with hkept
          | ⟨more, hall⟩
        · rw [hkept] at hfree
          exact hfree.of_append.1.reverse
        · rw [hall] at hfree
          exact hfree.of_append.2.of_append.1.reverse

theorem Untouched.exists_addLine {phase : Phase} {marked : Marked} (h : Untouched marked)
    (hwoven : Woven phase marked) (blank : Bool) (indent : Nat) :
    ∃ push : List LiteralPiece × List LiteralPiece → List LiteralPiece × List LiteralPiece,
      ∀ wrapped position state, (IndentedState.addLine blank indent position
        (marked.side wrapped) state).looks = push state.looks := by
  obtain ⟨push, hpush⟩ := h.exists_push hwoven .text indent
  refine ⟨fun looks => (push looks.1, if blank then looks.2 else push looks.1),
    fun wrapped position state => ?_⟩
  have hline := hpush wrapped position state.all
  cases blank with
  | true => exact congrArg (Prod.mk · _) hline
  | false => exact congrArg₂ Prod.mk hline hline

theorem Placed.indentedFrom {indent position fuel : Nat} {marked : Marked}
    {state : IndentedState} {blank : Bool} (h : Placed marks position marked)
    (hnil : marked ≠ []) (hblank : blank = true → Source.isBlankLine (marked.side false) = true)
    (hfuel : (marked.side false).length < fuel)
    (hfree : Free marks (readIndented containers blank indent fuel state position
      (marked.side false)).1.pieces) :
    ∃ passed rest, rest.length < marked.length ∧
      ReadsAlike IndentedState.looks indentedOutcome (readIndented containers blank indent)
        marked passed rest := by
  induction fuel generalizing marked position state blank indent with
  | zero => exact absurd hfuel (Nat.not_lt_zero _)
  | succ fuel ih =>
  have hfirst := Passes.line h.ready
  obtain ⟨inside, head, hhead, hwithin⟩ := hfirst.ready.within containers
  obtain ⟨indented, next, hnext, hindented⟩ := Head.takeExactly hhead.ready 4
  obtain ⟨push, hpush⟩ :=
    (h.untouched_of_indented hblank hfree).exists_addLine h.ready blank indent
  have hlength (wrapped : Bool) := Woven.lineLength h.ready wrapped
  have hrest (wrapped : Bool) : (next.side wrapped).rest = Marked.side wrapped next.rest := rfl
  have hstep (wrapped : Bool) (fuel : Nat) (state : IndentedState) (position : Nat) :
      readIndented containers blank indent (fuel + 1) state position (marked.side wrapped) =
        if !inside || !(indented || (next.side false).atEol) ||
            (Marked.side false next.rest).isEmpty then
          ((state.addLine blank indent position (marked.side wrapped)).kept, blank,
            position + (Marked.side wrapped (line marked)).length,
            Marked.side wrapped (behindLine marked))
        else
          readIndented containers (Source.isBlankLine (Marked.side false next.rest)) next.pending
            fuel (state.addLine blank indent position (marked.side wrapped))
            (position + (Marked.side wrapped (line marked)).length + next.taken)
            (Marked.side wrapped next.rest) := by
    have hstep := @readIndented_succ containers fuel indent position state blank
      inside indented (marked.side wrapped) (head.side wrapped) (next.side wrapped)
      (by rw [Woven.drop_lineLength h.ready, hwithin]) (hindented wrapped)
    rw [hstep, hnext.ready.atEol, hrest, hnext.ready.isEmpty_side, hnext.ready.isBlankLine,
      Woven.drop_lineLength h.ready, hlength]
    rfl
  by_cases hstop : (!inside || !(indented || (next.side false).atEol) ||
      (Marked.side false next.rest).isEmpty) = true
  · refine ⟨_, _, length_behindLine_lt hnil, .stop hfirst (fun looks => ((push looks).2, blank))
      fun wrapped fuel state position => ?_⟩
    rw [hstep, if_pos hstop, ← hpush wrapped position state]
    rfl
  · have hrestNil : next.rest ≠ [] := by
      rintro hnil
      refine hstop ?_
      simp [hnil]
    obtain ⟨first, hmarkers, hwidth⟩ := (hhead.trans hnext).passes
    have hwidth (wrapped : Bool) : (Marked.side wrapped (line marked ++ first)).length =
        (Marked.side wrapped (line marked)).length + next.taken := by
      rw [Marked.side_append, List.length_append]
      simpa [Head.start] using hwidth wrapped
    have hpassed := hfirst.trans hmarkers
    have hshorter := (hhead.trans hnext).shorter hnil
    have hshort := hpassed.length_side h.ready hshorter
    rw [hstep, if_neg hstop, Nat.add_assoc, ← hwidth] at hfree
    have hstrict := hshort false
    obtain ⟨passed, rest, hless, hread⟩ := ih (h.passes hpassed) hrestNil id (by omega) hfree
    refine ⟨_, rest, hless.trans hshorter, hread.line hpassed hshort push
      fun wrapped fuel state position => ⟨_, hpush wrapped position state, ?_⟩⟩
    rw [hstep, if_neg hstop, Nat.add_assoc, ← hwidth]

theorem Placed.indentedCode {indent position : Nat} {marked : Marked}
    (h : Placed marks position marked) (hnil : marked ≠ [])
    (hfree : LeafFree marks (LeafReader.indentedCode containers indent position
      (marked.side false)).1.leaf) (position' : Nat) :
    LeafPair marked position
        (LeafReader.indentedCode containers indent position' (marked.side true)).1
        (LeafReader.indentedCode containers indent position (marked.side false)).1 ∧
      (LeafReader.indentedCode containers indent position' (marked.side true)).2 =
        (LeafReader.indentedCode containers indent position (marked.side false)).2 := by
  have hpieces : Free marks (readIndented containers false indent
      ((marked.side false).length + 1) ⟨[], ⟨[], 0⟩⟩ position (marked.side false)).1.pieces :=
    (hfree _ List.mem_cons_self).reverse
  obtain ⟨passed, rest, hless, hpasses, halike⟩ := h.indentedFrom hnil (by simp)
    (Nat.lt_succ_self _) hpieces
  obtain ⟨found, halike⟩ := halike ([], [])
  have hresult := halike false _ ⟨[], ⟨[], 0⟩⟩ position rfl (Nat.lt_succ_self _)
  have hresult' := halike true _ ⟨[], ⟨[], 0⟩⟩ position' rfl (Nat.lt_succ_self _)
  simp only [readIndented, indentedOutcome, contents, Prod.mk.injEq] at hresult hresult'
  refine ⟨⟨fun inFootnote => ?_, passed, rest, hpasses, fun _ => hless,
    congrArg Prod.snd hresult'.2, congrArg Prod.snd hresult.2, congrArg Prod.fst hresult.2⟩, ?_⟩
  · simpa [LeafBlock.literals, Literal.content, LeafReader.indentedCode] using
      (congrArg Prod.fst hresult'.1).trans (congrArg Prod.fst hresult.1).symm
  · exact (congrArg Prod.snd hresult'.1).trans (congrArg Prod.snd hresult.1).symm

end Canonmark.SpacedDestination
