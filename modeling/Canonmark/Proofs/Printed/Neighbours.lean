import Canonmark.Proofs.Printed.Leaves

/-!
# Neighbours of printed paragraphs

A paragraph that ends a block is stopped by what follows the block: the end of the text, a blank
line, or the first line of a block that is told apart from it.
-/

namespace Canonmark.Printed

open Source

variable {extensions : Extensions} {outer inner : List Level} {containers : List Container}

theorem Fits.split (h : Fits (outer ++ inner) containers) :
    ∃ first second, containers = first ++ second ∧ Fits outer first ∧ Fits inner second := by
  induction outer generalizing containers with
  | nil => exact ⟨[], containers, rfl, .nil, h⟩
  | cons level outer ih =>
      cases h with
      | quote h =>
          obtain ⟨first, second, rfl, hfits, hfits'⟩ := ih h
          exact ⟨.quote :: first, second, rfl, .quote hfits, hfits'⟩
      | item tight marker number hwide h =>
          obtain ⟨first, second, rfl, hfits, hfits'⟩ := ih h
          exact ⟨_, second, rfl, .item tight marker number hwide hfits, hfits'⟩

theorem continuation_end (h : Fits outer containers) (taken : Nat) :
    (LineHead.continuation containers (headAt taken [])).2 = headAt taken [] := by
  induction h with
  | nil => rfl
  | quote h ih =>
      have hnone : (headAt taken []).continue? .quote = none := rfl
      rw [continuation_of_none hnone]
  | @item tight marker number width hwide levels containers h ih =>
      have hinList : (headAt taken []).continue? (.list tight marker number)
          = some (headAt taken []) := rfl
      have hcolumns := @takeExactly_headAt [] (by simp) taken width
      have hinItem : (headAt taken []).continue? (.item width) = some (headAt taken []) := by
        simp only [LineHead.continue?, hcolumns]
        rw [if_pos]
        simp [headAt, LineHead.atEol]
      rw [continuation_cons hinList, continuation_cons hinItem]
      exact ih

theorem stops_end (h : Fits outer containers) : Stops extensions containers [] := by
  have hsame := continuation_end h 0
  have hwithin : LineHead.within containers [] = ((LineHead.within containers []).1, headAt 0 []) :=
    Prod.ext rfl hsame
  refine .intro _ 0 [] hwithin (by simp) (fun _ => rfl) ?_ (.inr rfl)
  intro _ head hinside
  obtain rfl : headAt 0 [] = head := congrArg Prod.snd (hwithin.symm.trans hinside)
  rfl

theorem stops_blank (h : Fits (outer ++ inner) containers) (behind : Text) :
    Stops extensions containers (carry outer [] ++ '\n' :: behind) := by
  obtain ⟨first, second, rfl, hfits, hfits'⟩ := h.split
  obtain ⟨front, -, hcontinued⟩ := continuation_carry hfits second 0 [] behind
  obtain ⟨-, -, -, -, hsame⟩ := continuation_blank hfits' (0 + front.length) behind
  rw [List.nil_append, hsame] at hcontinued
  have hwithin : LineHead.within (first ++ second) (carry outer [] ++ '\n' :: behind)
      = ((LineHead.within (first ++ second) (carry outer [] ++ '\n' :: behind)).1,
          headAt (0 + front.length) ('\n' :: behind)) := by
    refine Prod.ext rfl ?_
    rw [LineHead.within, start_eq, hcontinued]
  refine .intro _ _ _ hwithin (by simp) (fun _ => rfl) ?_ (.inr rfl)
  intro _ head hinside
  obtain rfl : headAt (0 + front.length) ('\n' :: behind) = head :=
    congrArg Prod.snd (hwithin.symm.trans hinside)
  rfl

theorem startsBlock_outside {text : Text} (h : startsBlock extensions true false text = true) :
    startsBlock extensions false false text = true := by
  have hitems : (itemStart? text).any (fun found =>
        !true || false || ((isBullet found.1 || found.2.1 = 1) && !found.2.2)) = true →
      (itemStart? text).any (fun found =>
        !false || false || ((isBullet found.1 || found.2.1 = 1) && !found.2.2)) = true := by
    cases itemStart? text <;> simp
  unfold startsBlock at h ⊢
  rw [Bool.or_eq_true, Bool.or_eq_true, Bool.or_eq_true] at h ⊢
  rcases h with ((hline | hitem) | htag) | hfootnote
  · exact .inl (.inl (.inl hline))
  · exact .inl (.inl (.inr (hitems hitem)))
  · exact .inl (.inr htag)
  · exact .inr hfootnote

theorem interrupts_starts {inside : Bool} {text : Text}
    (h : startsBlock extensions inside false text = true) (containers : List Container) :
    interrupts extensions containers inside text = true := by
  rw [interrupts, h, Bool.true_or]

/-- Only where no containers are left does a line that starts a block continue all of them. -/
theorem Fits.length_keptOpen (h : Fits inner containers)
    (hall : (keptOpen containers).length = containers.length) : inner = [] := by
  cases h with
  | nil => rfl
  | quote h => cases hall
  | item tight marker number hwide h => simp [keptOpen] at hall

theorem within_visible (hfits : Fits (outer ++ inner) containers) {line : Text}
    (hvisible : Visible line) (hplain : inner.head? = some .quote → line.head? ≠ some '>')
    (behind : Text) :
    ∃ inside taken, LineHead.within containers (carry outer line ++ '\n' :: behind)
        = (inside, headAt taken (line ++ '\n' :: behind)) ∧ (inside = true → inner = []) := by
  obtain ⟨first, second, rfl, hfits, hfits'⟩ := hfits.split
  obtain ⟨front, -, hcontinued⟩ := continuation_carry hfits second 0 line behind
  obtain ⟨hstopped, -⟩ := continuation_visible hfits' hvisible hplain (0 + front.length)
    ('\n' :: behind)
  rw [hstopped] at hcontinued
  refine ⟨_, _, by rw [LineHead.within, start_eq, hcontinued], fun hall =>
    hfits'.length_keptOpen ?_⟩
  simpa using hall

/-- A line that ends a paragraph in front of it, and is nothing else behind one. -/
structure Breaks (extensions : Extensions) (line : Text) : Prop where
  visible : Visible line
  one : OneLine line
  starts : ∀ behind, startsBlock extensions true false (line ++ '\n' :: behind) = true
  underline : underline? (line ++ ['\n']) = none
  separator : extensions.tables = true → Table.separator? (line ++ ['\n']) = none

theorem Breaks.stops {line : Text} (h : Breaks extensions line)
    (hfits : Fits (outer ++ inner) containers)
    (hplain : inner.head? = some .quote → line.head? ≠ some '>') (behind : Text) :
    Stops extensions containers (carry outer line ++ '\n' :: behind) := by
  obtain ⟨inside, taken, hwithin, -⟩ := within_visible hfits h.visible hplain behind
  have hstarts : startsBlock extensions inside false (line ++ '\n' :: behind) = true := by
    cases inside with
    | false => exact startsBlock_outside (h.starts behind)
    | true => exact h.starts behind
  refine .intro inside taken _ hwithin (h.visible.front _) (fun _ => ?_) ?_
    (.inl (interrupts_starts hstarts containers))
  · rw [← (h.one.same behind).underline?, h.underline]
  · intro htables head hfound
    obtain rfl : headAt taken (line ++ '\n' :: behind) = head :=
      congrArg Prod.snd (hwithin.symm.trans hfound)
    exact (separator?_same h.visible h.one behind).symm.trans (h.separator htables)

theorem stops_item {line : Text} (hvisible : Visible line) {level : Level}
    (hfits : Fits (outer ++ level :: inner) containers)
    (hplain : level = .quote → line.head? ≠ some '>') {behind : Text}
    (hstarts : startsBlock extensions false false (line ++ '\n' :: behind) = true) :
    Stops extensions containers (carry outer line ++ '\n' :: behind) := by
  obtain ⟨inside, taken, hwithin, houtside⟩ := within_visible hfits hvisible
    (fun hquote => hplain (Option.some.inj hquote)) behind
  cases inside with
  | true => exact absurd (houtside rfl) (List.cons_ne_nil level inner)
  | false =>
      refine .intro false taken _ hwithin (hvisible.front _) (fun hinside => by cases hinside) ?_
        (.inl (interrupts_starts hstarts containers))
      intro _ head hfound
      rw [hwithin] at hfound
      cases hfound

inductive FirstLine (extensions : Extensions) : Block → Text → Prop
  | paragraph {content : List Inline} {line : Text} :
      startsParagraph extensions line = true → FirstLine extensions (.paragraph content) line
  | heading {level : Nat} {content : List Inline} : 1 ≤ level → level ≤ 6 →
      FirstLine extensions (.heading level content) (Printer.heading level content)
  | quote {depth : Nat} {children : List Block} (line : Text) :
      FirstLine extensions (.quote depth children) ('>' :: ' ' :: line)
  | list {kind : ListKind} {tight : Bool} {items : List (List Block)} {marker line : Text} :
      Marks kind (itemNumber kind 0) marker → Visible line →
        FirstLine extensions (.list kind tight items) (marker ++ ' ' :: line)
  | code {c : Char} {fence info text : Text} : CodeParts c fence info text →
      FirstLine extensions (.verbatim (.code (some fence) info text)) (fence ++ info)
  | rule {marker : Text} : rule? (marker ++ ['\n']) = some (marker.length + 1) →
      FirstLine extensions (.verbatim (.rule marker)) marker

theorem exists_item {kind : ListKind} {tight : Bool} {items : List (List Block)}
    (h : settled extensions (.list kind tight items) = true) :
    ∃ item rest line later, items = item :: rest ∧
      Marks kind (itemNumber kind 0) (Printer.itemMarker kind 0) ∧
      allLines (itemSpacing tight) item = line :: later ∧ Visible line := by
  simp only [settled, Bool.and_eq_true, Bool.not_eq_true', List.isEmpty_eq_false_iff] at h
  obtain ⟨⟨hsome, hkind⟩, hsettledItems⟩ := h
  obtain ⟨item, rest, rfl⟩ := List.exists_cons_of_ne_nil hsome
  simp only [itemsSettled, Bool.and_eq_true] at hsettledItems
  obtain ⟨line, later, hcontent, hvisible⟩ := startsItem_cons hsettledItems.1.2
  exact ⟨item, rest, line, later, rfl, marks_itemMarker hkind (by simp), hcontent, hvisible⟩

theorem firstLine {block : Block} (h : settled extensions block = true) {first : Text}
    {later : List Text} (hprinted : lines block = first :: later) :
    FirstLine extensions block first := by
  cases block with
  | paragraph content =>
      rw [settled] at h
      rw [lines] at hprinted
      rw [hprinted, settledText, Bool.and_eq_true] at h
      exact .paragraph h.1
  | heading level content =>
      simp only [settled, Bool.and_eq_true, decide_eq_true_eq] at h
      simp only [lines, List.cons.injEq] at hprinted
      obtain ⟨rfl, -⟩ := hprinted
      exact .heading h.1 h.2
  | quote depth children =>
      rw [lines] at hprinted
      obtain ⟨line, inner, -, hsame, -⟩ := List.map_eq_cons_iff.mp hprinted
      rw [← hsame]
      exact .quote line
  | list kind tight items =>
      obtain ⟨item, rest, line, inner, rfl, hmarks, hcontent, hvisible⟩ := exists_item h
      simp only [lines, itemLines, hcontent, hang, List.cons_append, List.cons.injEq] at hprinted
      obtain ⟨rfl, -⟩ := hprinted
      exact .list hmarks hvisible
  | verbatim content =>
      cases content with
      | code fence info text =>
          cases fence with
          | none => cases h
          | some fence =>
              obtain ⟨c, hparts⟩ := exists_codeParts h
              obtain ⟨code, -, -, hsame⟩ := hparts.lines
              rw [hsame, List.cons.injEq] at hprinted
              obtain ⟨rfl, -⟩ := hprinted
              exact .code hparts
      | rule marker =>
          have hrule : settledRule extensions marker = true := h
          rw [lines_rule hrule, List.cons.injEq] at hprinted
          obtain ⟨rfl, -⟩ := hprinted
          simp only [settledRule, Bool.and_eq_true, decide_eq_true_eq] at hrule
          exact .rule hrule.1.2
      | html text => cases h
      | frontMatter text => cases h
      | source text => cases h

variable {block : Block} {line : Text}

theorem rule_head {marker : Text} (h : rule? (marker ++ ['\n']) = some (marker.length + 1)) :
    ∃ c rest, marker = c :: rest ∧ (c = '*' ∨ c = '-' ∨ c = '_') := by
  obtain ⟨c, rest, hsame, hmark⟩ := rule?_head h
  cases marker with
  | nil =>
      obtain ⟨rfl, -⟩ := List.cons.inj hsame
      rcases hmark with hsame | hsame | hsame
      all_goals exact absurd hsame (by decide)
  | cons d tail =>
      obtain ⟨rfl, -⟩ := List.cons.inj hsame
      exact ⟨d, tail, rfl, hmark⟩

theorem FirstLine.visible (h : FirstLine extensions block line) : Visible line := by
  cases h with
  | paragraph hstarts =>
      simp only [startsParagraph, Bool.and_eq_true] at hstarts
      exact visible_of_isVisible hstarts.1.1.1.1.1
  | heading hlow hhigh =>
      rename_i level content
      obtain ⟨text, -, hsame⟩ := heading_shape level content
      obtain ⟨level, rfl⟩ := Nat.exists_eq_add_of_le' hlow
      rw [hsame]
      exact ⟨'#', _, rfl, rfl⟩
  | quote line => exact ⟨'>', _, rfl, rfl⟩
  | list hmarks hvisible => exact hmarks.isMarker.visible _
  | @code c fence info text hparts =>
      obtain ⟨rest, hshape⟩ := hparts.fenceOf.exists_cons
      refine ⟨c, rest ++ info, by rw [hshape]; rfl, ?_⟩
      rcases hparts.fenceOf.char with rfl | rfl <;> rfl
  | rule hread =>
      obtain ⟨c, rest, rfl, hmark⟩ := rule_head hread
      refine ⟨c, rest, rfl, ?_⟩
      rcases hmark with rfl | rfl | rfl <;> rfl

theorem FirstLine.isQuote (h : FirstLine extensions block line) (hmark : line.head? = some '>') :
    isQuote block = true := by
  cases h with
  | paragraph hstarts =>
      simp only [startsParagraph, isMarked, Bool.and_eq_true, Bool.not_eq_true',
        Bool.or_eq_false_iff, decide_eq_false_iff_not] at hstarts
      exact absurd hmark hstarts.1.1.1.1.2.2
  | heading hlow hhigh =>
      rename_i level content
      obtain ⟨text, -, hsame⟩ := heading_shape level content
      obtain ⟨level, rfl⟩ := Nat.exists_eq_add_of_le' hlow
      rw [hsame] at hmark
      cases hmark
  | quote line => rfl
  | list hmarks hvisible =>
      obtain ⟨c, rest, rfl, hchar⟩ := hmarks.isMarker.exists_cons
      obtain rfl := Option.some.inj hmark
      cases hchar
  | @code c fence info text hparts =>
      obtain ⟨rest, hshape⟩ := hparts.fenceOf.exists_cons
      rw [hshape] at hmark
      obtain rfl := Option.some.inj hmark
      rcases hparts.fenceOf.char with hsame | hsame <;> cases hsame
  | rule hread =>
      obtain ⟨c, rest, rfl, hchar⟩ := rule_head hread
      obtain rfl := Option.some.inj hmark
      rcases hchar with hsame | hsame | hsame <;> cases hsame

theorem underline?_none {c : Char} (h : c ≠ '=' ∧ c ≠ '-') (rest : Text) :
    underline? (c :: rest) = none := by
  simp [underline?, h]

theorem Marks.starts {kind : ListKind} {number : Nat} {marker line : Text}
    (hmarks : Marks kind number marker) (hvisible : Visible line) {inside : Bool}
    (h : inside = true → isBullet (listMarker kind) = true ∨ number = 1) (behind : Text) :
    startsBlock extensions inside false (marker ++ ' ' :: (line ++ behind)) = true := by
  have hstart := hmarks.itemStart? hvisible behind
  cases inside with
  | false => simp [startsBlock, hstart]
  | true =>
      rcases h rfl with hbullet | hone
      · simp [startsBlock, hstart, hbullet]
      · simp [startsBlock, hstart, hone]

theorem FirstLine.starts (h : FirstLine extensions block line)
    (hinterrupts : interruptsText block = true) (hone : OneLine line) (behind : Text) :
    startsBlock extensions true false (line ++ '\n' :: behind) = true := by
  cases h with
  | paragraph hstarts => cases hinterrupts
  | heading hlow hhigh =>
      rename_i level content
      obtain ⟨text, hshape, hsame⟩ := heading_shape level content
      have hread := headingLevel?_hashes hlow hhigh hshape behind
      rw [hsame, List.append_assoc]
      simp only [startsBlock, hread, Option.isSome_some, Bool.or_true, Bool.true_or]
  | quote line => simp [startsBlock]
  | @list kind tight items marker line hmarks hvisible =>
      rw [List.append_assoc, List.cons_append]
      refine hmarks.starts hvisible (fun _ => ?_) _
      cases kind with
      | bullet bullet =>
          cases hmarks with
          | bullet hbullet => exact .inl hbullet
      | ordered start delimiter =>
          refine .inr ?_
          have hfirst : start = 1 := by simpa [interruptsText] using hinterrupts
          rw [itemNumber, hfirst]
  | code hparts =>
      have hread := hparts.fence? behind
      simp only [startsBlock, hread, Option.isSome_some, Bool.or_true, Bool.true_or]
  | rule hread =>
      rw [(hone.same behind).rule?] at hread
      simp only [startsBlock, hread, Option.isSome_some, Bool.or_true, Bool.true_or]

theorem FirstLine.underline (h : FirstLine extensions block line)
    (hinterrupts : interruptsText block = true) : underline? (line ++ ['\n']) = none := by
  cases h with
  | paragraph hstarts => cases hinterrupts
  | heading hlow hhigh =>
      rename_i level content
      obtain ⟨text, -, hsame⟩ := heading_shape level content
      obtain ⟨level, rfl⟩ := Nat.exists_eq_add_of_le' hlow
      rw [hsame]
      exact underline?_none (by decide) _
  | quote line => exact underline?_none (by decide) _
  | list hmarks hvisible =>
      rw [List.append_assoc, List.cons_append]
      exact hmarks.underline? hvisible _
  | code hparts =>
      obtain ⟨rest, hshape⟩ := hparts.fenceOf.exists_cons
      rw [hshape]
      rcases hparts.fenceOf.char with rfl | rfl
      · exact underline?_none (by decide) _
      · exact underline?_none (by decide) _
  | rule hread =>
      obtain ⟨c, rest, rfl, hmark⟩ := rule_head hread
      have hother : c ≠ '-' := by
        rintro rfl
        cases hinterrupts
      rcases hmark with rfl | rfl | rfl
      · exact underline?_none (by decide) _
      · exact absurd rfl hother
      · exact underline?_none (by decide) _

theorem FirstLine.breaks (h : FirstLine extensions block line) (hone : OneLine line)
    (hinterrupts : interruptsText block = true)
    (hseparator : extensions.tables = true → Table.separator? (line ++ ['\n']) = none) :
    Breaks extensions line :=
  ⟨h.visible, hone, h.starts hinterrupts hone, h.underline hinterrupts, hseparator⟩

end Canonmark.Printed
