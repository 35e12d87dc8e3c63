import Canonmark.Proofs.Printed.Blocks
import Canonmark.Proofs.Printed.Plain

/-!
# Plain documents that are read

Between plain blocks a reader has no container open: each block, and each blank line, takes it from
the start of a line to the start of another one.
-/

namespace Canonmark.Printed

open Source

variable {extensions : Extensions} {source : Text}

def between (extensions : Extensions) (source : Text) (blocks : List BlockTree) (position : Nat)
    (lastBlank : Bool) : BlockReader :=
  { extensions := extensions, position := position, rest := source.drop position,
    blocks := blocks, lastBlank := lastBlank }

variable {blocks : List BlockTree} {position : Nat} {lastBlank : Bool}

theorem readBlock_between :
    (between extensions source blocks position lastBlank).readBlock =
      enter ((source.drop position).length + 1) (headAt 0 (source.drop position))
        (between extensions source blocks position lastBlank) :=
  readBlock_eq _

theorem finishList_between (stop : Nat) :
    (between extensions source blocks position lastBlank).finishList stop =
      between extensions source blocks position false := by
  cases lastBlank <;> rfl

theorem atLeaf_between :
    AtLeaf extensions source []
      ((between extensions source blocks position false).draft source)
      ((between extensions source blocks position lastBlank).finishList
        (between extensions source blocks position lastBlank).position) := by
  rw [finishList_between]
  exact ⟨⟨rfl, rfl, rfl, rfl⟩, ⟨[], .nil, rfl⟩, rfl⟩

theorem blankLine_between {behind : Text} (hhere : source.drop position = '\n' :: behind) :
    (between extensions source blocks position lastBlank).readBlock =
      between extensions source blocks (position + 1) true := by
  have hnext : source.drop (position + 1) = (source.drop position).drop 1 := by
    rw [List.drop_drop]
  rw [readBlock_between, between, between, hhere, enter_blank, hnext, hhere]
  rfl

theorem readBlock_leaf {read : LeafRead}
    (hentered : enter ((source.drop position).length + 1) (headAt 0 (source.drop position))
        (between extensions source blocks position lastBlank) =
      BlockReader.finishLeaf read (between extensions source blocks position false))
    (hrest : source.drop read.position = read.rest) :
    (between extensions source blocks position lastBlank).readBlock =
      between extensions source (.leaf read.leaf read.span :: blocks) read.position false := by
  rw [readBlock_between, hentered, between, between, hrest]
  rfl

/-- A paragraph of lines of text has their texts for tokens, behind those it starts with. -/
theorem paragraphFrom_texts {later : List Text}
    (hgoesOn : ∀ line ∈ later, continuesParagraph extensions line = true)
    {line tail : Text} (hones : ∀ text ∈ line :: later, OneLine text)
    (htexts : ∀ text ∈ line :: later, TokenLine.isText extensions text = true)
    (hstops : Stops extensions [] tail) {fuel position : Nat} (start : Nat) {before : List Token}
    (hfresh : ∀ token ∈ before.head?, token.mark ≠ .text)
    (hhere : source.drop position = line ++ '\n' :: (below [] later ++ tail))
    (henough : later.length < fuel) :
    ∃ tokens, LinesTexts source position (line :: later) tokens ∧
      LeafReader.paragraphFrom extensions [] start fuel before position
          (line ++ '\n' :: (below [] later ++ tail)) =
        ⟨.paragraph false (before.reverse ++ tokens),
          .upTo start (position + (below [] (line :: later)).length),
          position + (below [] (line :: later)).length, tail⟩ := by
  induction later generalizing line fuel position before with
  | nil =>
      obtain ⟨fuel, rfl⟩ := Nat.exists_eq_succ_of_ne_zero (Nat.ne_zero_of_lt henough)
      obtain ⟨tokens, hlineTexts, hread⟩ := TokenLine.read_text extensions
        (htexts line List.mem_cons_self) (hones line List.mem_cons_self) hhere hfresh
      refine ⟨tokens.reverse, .last hlineTexts, ?_⟩
      rw [paragraphFrom_stops hstops (by rw [hread]; rfl), hread]
      simp [LeafReader.pushBackslash, below_cons, carry_nil, below_nil, Nat.add_assoc]
  | cons next later ih =>
      obtain ⟨fuel, rfl⟩ := Nat.exists_eq_succ_of_ne_zero (Nat.ne_zero_of_lt henough)
      obtain ⟨hone, hones⟩ := List.forall_mem_cons.mp hones
      obtain ⟨htext, htexts⟩ := List.forall_mem_cons.mp htexts
      obtain ⟨hcontinues, hgoesOn⟩ := List.forall_mem_cons.mp hgoesOn
      obtain ⟨tokens, hlineTexts, hread⟩ := TokenLine.read_text extensions htext hone hhere hfresh
      have hseparator := noSeparator_below .nil hgoesOn
        (fun line hmem => hones line (List.mem_cons_of_mem next hmem)) hstops.separator
      rw [below_cons, carry_nil, List.append_assoc, List.cons_append] at hhere hread ⊢
      obtain ⟨front, hshape, hgoes⟩ := paragraphFrom_continues .nil (hones next List.mem_cons_self)
        hcontinues hseparator (by rw [hread]; rfl) start fuel
      obtain rfl : front = [] := List.self_eq_append_left.mp hshape
      have hbehind : source.drop (position + line.length + 1) =
          next ++ '\n' :: (below [] later ++ tail) := by
        rw [Nat.add_assoc, ← List.drop_drop, hhere, drop_line]
      obtain ⟨others, hlinesTexts, hmore⟩ := @ih hgoesOn next hones htexts fuel _
        (⟨.softBreak, .ofLength (position + line.length) 1⟩ :: (tokens ++ before))
        (by simp) hbehind (Nat.lt_of_succ_lt_succ henough)
      refine ⟨_, .cons hlineTexts hlinesTexts, ?_⟩
      have hsize : position + line.length + 1 + (below [] (next :: later)).length =
          position + (below [] (line :: next :: later)).length := by
        rw [below_cons [] line, carry_nil, List.length_append, List.length_cons]
        omega
      rw [hread] at hgoes
      rw [hsize] at hmore
      rw [hgoes]
      refine hmore.trans ?_
      simp

/-! ## Blocks -/

/-- What stands at the position is read as a leaf for the block, up to the tail. -/
def ReadsBlock (extensions : Extensions) (source tail : Text) (block : Block) (position : Nat) :
    Prop :=
  ∀ (blocks : List BlockTree) (lastBlank : Bool), ∃ tree stop,
    (between extensions source blocks position lastBlank).readBlock =
        between extensions source (tree :: blocks) stop false ∧
      source.drop stop = tail ∧ ReadsAs source position stop tree block

variable {tail : Text}

theorem oneLine_here (hcarriage : '\r' ∉ source) {lines : List Text}
    (hfeed : ∀ line ∈ lines, '\n' ∉ line)
    (hhere : source.drop position = below [] lines ++ tail) : ∀ line ∈ lines, OneLine line := by
  refine fun line hmem => ⟨hfeed line hmem, fun hinLine => ?_⟩
  have hinSource : '\r' ∈ source.drop position := by
    rw [hhere]
    exact List.mem_append_left _ (List.mem_flatMap.mpr ⟨line, hmem, List.mem_append_left _ hinLine⟩)
  exact hcarriage (List.mem_of_mem_drop hinSource)

theorem length_joinLines_le {lines : List Text} (hsome : lines ≠ []) :
    (Text.joinLines lines).length ≤ (below [] lines).length := by
  have hsame : Text.joinLines lines ++ ['\n'] = below [] lines := Text.joinLines_concat hsome
  rw [← hsame, List.length_append]
  exact Nat.le_add_right _ _

theorem readsBlock_paragraph {lines : List Text} (hsettled : settledText extensions lines = true)
    (htexts : ∀ line ∈ lines, TokenLine.isText extensions line = true)
    (hones : ∀ line ∈ lines, OneLine line) (hstarts : StartsLine source position)
    (hhere : source.drop position = below [] lines ++ '\n' :: tail) :
    ReadsBlock extensions source ('\n' :: tail)
      (.paragraph (XrefShortcut.splitAll (Builder.textLines lines))) position := by
  cases lines with
  | nil => cases hsettled
  | cons first later =>
      intro blocks lastBlank
      simp only [settledText, Bool.and_eq_true, List.all_eq_true] at hsettled
      obtain ⟨hbegins, hgoesOn⟩ := hsettled
      have hstops : Stops extensions [] ('\n' :: tail) := @stops_blank extensions [] [] [] .nil tail
      have hseparator := noSeparator_below .nil hgoesOn
        (fun line hmem => hones line (List.mem_cons_of_mem first hmem)) hstops.separator
      have hbehind :
          source.drop (position + (below [] (first :: later)).length) = '\n' :: tail := by
        rw [← List.drop_drop, hhere, List.drop_left]
      have hlong := length_joinLines_le (List.cons_ne_nil first later)
      have hentered := enter_text (@atLeaf_between extensions source blocks position lastBlank)
        (hones first List.mem_cons_self) hbegins (by rw [finishList_between]; exact hseparator)
        ((source.drop position).length + 1) 0
      rw [below_cons, carry_nil, List.append_assoc, List.cons_append] at hhere
      have henough : later.length < (source.drop position).length + 1 := by
        have hlengths := length_le_below [] later
        rw [hhere]
        simp only [List.length_append, List.length_cons]
        omega
      have hfresh : ∀ token ∈ ([] : List Token).head?, token.mark ≠ .text := by simp
      obtain ⟨tokens, hlinesTexts, hread⟩ :=
        paragraphFrom_texts hgoesOn hones htexts hstops position hfresh hhere henough
      rw [finishList_between, ← hhere] at hentered
      rw [← hhere] at hread
      have hentered := hentered.trans (congrArg (BlockReader.finishLeaf · _) hread)
      refine ⟨_, _, readBlock_leaf hentered hbehind, hbehind, .paragraph _ hstarts hlinesTexts ?_⟩
      exact Nat.add_le_add_left hlong position

theorem readsBlock_noHeading {level : Nat} (hlow : 1 ≤ level) (hhigh : level ≤ 6)
    (hhere : source.drop position = List.replicate level '#' ++ '\n' :: tail) :
    ReadsBlock extensions source tail (.heading level []) position := by
  intro blocks lastBlank
  have hentered := enter_heading (@atLeaf_between extensions source blocks position lastBlank) hlow
    hhigh .nil tail ((source.drop position).length + 1) 0
  have hread : LeafReader.heading extensions position level
        (List.replicate level '#' ++ '\n' :: tail) =
      ⟨.heading level [], .upTo position (position + level + 1), position + level + 1, tail⟩ := by
    simp only [LeafReader.heading, drop_hashes]
    rfl
  have hbehind : source.drop (position + level + 1) = tail := by
    rw [Nat.add_assoc, ← List.drop_drop, hhere, ← List.drop_drop, drop_hashes]
    rfl
  rw [finishList_between, List.nil_append, ← hhere] at hentered
  rw [← hhere] at hread
  have hentered := hentered.trans (congrArg (BlockReader.finishLeaf · _) hread)
  exact ⟨_, _, readBlock_leaf hentered hbehind, hbehind, .noHeading _ (by simp only; omega)⟩

theorem readsBlock_heading {level : Nat} (hlow : 1 ≤ level) (hhigh : level ≤ 6) {text : Text}
    (hline : HeadingLine text) (hopen : ¬ClosedByHashes text)
    (htext : TokenLine.isText extensions text = true)
    (hhere : source.drop position = List.replicate level '#' ++ ' ' :: (text ++ '\n' :: tail)) :
    ReadsBlock extensions source tail
      (.heading level (XrefShortcut.splitAll (Builder.textLines [text]))) position := by
  intro blocks lastBlank
  have hentered := enter_heading (@atLeaf_between extensions source blocks position lastBlank) hlow
    hhigh (.cons text) tail ((source.drop position).length + 1) 0
  have hinside : source.drop (position + level) = ' ' :: (text ++ '\n' :: tail) := by
    rw [← List.drop_drop, hhere, drop_hashes]
  have hwritten : source.drop (position + level + 1) = text ++ '\n' :: tail := by
    rw [← List.drop_drop, hinside]
    rfl
  obtain ⟨tokens, htexts, htokenLine⟩ := @TokenLine.read_text source [] _ extensions text tail htext
    hline.one hwritten (by simp)
  rw [List.append_nil] at htokenLine
  have hread := heading_read hline hopen position level
      (by rw [htokenLine]; exact htexts.rowed.stop_eq)
  rw [htokenLine, ← hhere] at hread
  have hbehind : source.drop (position + level + 1 + (text.length + 1)) = tail := by
    rw [← List.drop_drop, hwritten, drop_line]
  have hbefore : (source.drop (position + level + 1 - 1)).head? = some ' ' := by
    rw [Nat.add_sub_cancel, hinside]
    rfl
  rw [finishList_between, List.cons_append, ← hhere] at hentered
  have hentered := hentered.trans (congrArg (BlockReader.finishLeaf · _) hread)
  exact ⟨_, _, readBlock_leaf hentered hbehind, hbehind,
    .heading _ hbefore (.last htexts) (by omega) (by simp only; omega)⟩

theorem trim_line {line : Text} (htrimmed : Unicode.trim line = line) (hsome : line ≠ []) :
    Unicode.trim (line ++ ['\n']) = line := by
  obtain ⟨hfront, hback⟩ := trimBoth_eq_self htrimmed
  obtain ⟨c, rest, rfl⟩ := List.exists_cons_of_ne_nil hsome
  have hvisible : Unicode.isWhitespace c = false := by
    by_contra hspace
    rw [Bool.not_eq_false] at hspace
    rw [List.dropWhile_cons, hspace, if_pos rfl] at hfront
    have hshorter := (List.dropWhile_suffix (l := rest) Unicode.isWhitespace).length_le
    rw [hfront, List.length_cons] at hshorter
    omega
  rw [Unicode.trim, Text.trimBoth, List.cons_append, List.dropWhile_cons, hvisible,
    if_neg (by decide), ← List.cons_append, Text.dropEndWhile_concat rfl, hback]

theorem readsBlock_rule {marker : Text} (hsettled : settledRule extensions marker = true)
    (htrimmed : Unicode.trim marker = marker) (hcarriage : '\r' ∉ marker)
    (hhere : source.drop position = marker ++ '\n' :: tail) :
    ReadsBlock extensions source tail (.verbatim (.rule marker)) position := by
  intro blocks lastBlank
  have hentered := enter_rule (@atLeaf_between extensions source blocks position lastBlank) hsettled
    hcarriage tail ((source.drop position).length + 1) 0
  have hfilled : marker ≠ [] := by
    rintro rfl
    simp [settledRule, rule?] at hsettled
  have hbehind : source.drop (position + (marker.length + 1)) = tail := by
    rw [← List.drop_drop, hhere, drop_line]
  have hwritten : Unicode.trim (Span.slice (.ofLength position (marker.length + 1)) source)
      = marker := by
    have hsize : marker.length + 1 = (marker ++ ['\n']).length := by simp
    have hshape : marker ++ '\n' :: tail = (marker ++ ['\n']) ++ tail := by simp
    rw [Span.slice_ofLength, hhere, hsize, hshape, List.take_left, trim_line htrimmed hfilled]
  rw [finishList_between, ← hhere] at hentered
  have hrule := @ReadsAs.rule source position (position + (marker.length + 1))
    (.ofLength position (marker.length + 1)) (Nat.le_add_right _ _)
  rw [hwritten] at hrule
  exact ⟨_, _, readBlock_leaf hentered hbehind, hbehind, hrule⟩

theorem le_fencedFrom (containers : List Container) (indent : Nat) (char : Char)
    (size fuel : Nat) (pieces : List LocatedPiece) (position : Nat) (text : Text) :
    position ≤ (LeafReader.fencedFrom containers indent char size fuel pieces position text).2.1 ∧
      position ≤
        (LeafReader.fencedFrom containers indent char size fuel pieces position text).2.2.1 := by
  induction fuel generalizing pieces position text with
  | zero => exact ⟨Nat.le_refl _, Nat.le_refl _⟩
  | succ fuel ih =>
      unfold LeafReader.fencedFrom
      simp only
      split
      · exact ⟨Nat.le_refl _, Nat.le_refl _⟩
      split
      · simp only
        omega
      · obtain ⟨hstop, hnext⟩ := ih _ _ _
        exact ⟨Nat.le_trans (by omega) hstop, Nat.le_trans (by omega) hnext⟩

theorem exists_fencedCode (containers : List Container) (indent position : Nat) (char : Char)
    (size : Nat) (text : Text) :
    ∃ info pieces span next rest,
      LeafReader.fencedCode containers indent position char size text =
          ⟨.code (some info) pieces, span, next, rest⟩ ∧
        span.start = position ∧ position + size ≤ span.stop ∧ position + size ≤ next := by
  have honward := le_fencedFrom containers indent char size (text.length + 1) []
    (position + size + countWhile Ascii.isBlank (text.drop size)
      + lineLength ((text.drop size).drop (countWhile Ascii.isBlank (text.drop size))))
    (((text.drop size).drop (countWhile Ascii.isBlank (text.drop size))).drop
      (lineLength ((text.drop size).drop (countWhile Ascii.isBlank (text.drop size)))))
  rw [LeafReader.fencedCode]
  generalize LeafReader.fencedFrom _ _ _ _ _ _ _ _ = read at honward
  obtain ⟨pieces, stop, next, rest⟩ := read
  simp only at honward
  exact ⟨_, _, _, _, _, rfl, rfl, by simp only [Span.stop_upTo]; omega, by omega⟩

theorem fence_eq {c : Char} {size : Nat} {fence behind : Text} (hfenceOf : FenceOf c size fence)
    (hdiffers : behind.head? ≠ some c) {span : Span}
    (hhere : source.drop span.start = fence ++ behind) (hlong : span.start + size ≤ span.stop) :
    Builder.fence (.same source) span = fence := by
  obtain ⟨rest, hshape⟩ := hfenceOf.exists_cons
  have hsize : fence.length = size := by rw [hfenceOf.shape, List.length_replicate]
  have hvisible : Unicode.isWhitespace c = false := by
    rcases hfenceOf.char with rfl | rfl <;> rfl
  have hcount :
      countWhile (· = c) (fence ++ behind.take (span.stop - span.start - size)) = size := by
    refine hfenceOf.countWhile fun hfront => hdiffers ?_
    rw [List.head?_take] at hfront
    split at hfront
    · cases hfront
    · exact hfront
  have hslice : span.slice (Origin.same source).source
      = fence ++ behind.take (span.stop - span.start - size) := by
    rw [Span.slice, Origin.same, hhere, List.take_append, hsize, List.take_of_length_le (by omega)]
  generalize behind.take (span.stop - span.start - size) = behind at hcount hslice
  have hfront : (fence ++ behind).takeWhile (· = c) = fence := by
    have hlength : _ = fence.length := hcount.trans hsize.symm
    exact (List.prefix_of_prefix_length_le (List.takeWhile_prefix _)
      (List.prefix_append fence behind) hlength.le).eq_of_length hlength
  rw [hshape, List.cons_append, List.takeWhile_cons, decide_eq_true rfl, if_pos rfl] at hfront
  rw [Builder.fence, hslice, hshape, List.cons_append, List.dropWhile_cons, hvisible,
    if_neg (by decide)]
  simp only [hfront]
  exact if_pos (by simpa using hfenceOf.char)

theorem readsBlock_code {fence info text : Text} (hsettled : settledCode fence info text = true)
    (hones : ∀ line ∈ lines (.verbatim (.code (some fence) info text)), OneLine line)
    (hhere : source.drop position =
      below [] (lines (.verbatim (.code (some fence) info text))) ++ tail) :
    ReadsBlock extensions source tail (.verbatim (.code (some fence) info text)) position := by
  intro blocks lastBlank
  obtain ⟨c, hparts⟩ := exists_codeParts hsettled
  obtain ⟨code, hsame, hopen, hwritten⟩ := hparts.lines
  have hinner : ∀ line ∈ code, OneLine line := fun line hmem =>
    hones line (by rw [hwritten]; exact List.mem_cons_of_mem _ (List.mem_append_left _ hmem))
  have hsplit : below [] (lines (.verbatim (.code (some fence) info text))) ++ tail
      = fence ++ info ++ '\n' :: (below [] code ++ (carry [] fence ++ '\n' :: tail)) := by
    rw [hwritten, below_cons, below_append, below_cons, below_nil]
    simp [carry_nil]
  rw [hsplit] at hhere
  have hentered := hparts.enter (@atLeaf_between extensions source blocks position lastBlank)
    (below [] code ++ (carry [] fence ++ '\n' :: tail)) ((source.drop position).length + 1) 0
  obtain ⟨hleaf, hbehind, hrest⟩ := hparts.ends .nil hsame hinner hopen hhere (place [])
  have hdiffers : (info ++ '\n' :: (below [] code ++ (carry [] fence ++ '\n' :: tail))).head?
      ≠ some c := by
    have hfeed : c ≠ '\n' := by
      rcases hparts.fenceOf.char with rfl | rfl <;> decide
    exact fun hhead => hparts.differs ((head?_line info _ hfeed).mp hhead)
  obtain ⟨given, pieces, span, next, left, hread, rfl, hends, honward⟩ :=
    exists_fencedCode [] 0 position c fence.length (fence ++ info ++ '\n' ::
      (below [] code ++ (carry [] fence ++ '\n' :: tail)))
  rw [hread] at hleaf hbehind hrest
  rw [finishList_between, ← hhere] at hentered
  rw [← hhere] at hread
  have hentered := hentered.trans (congrArg (BlockReader.finishLeaf · _) hread)
  simp only [LeafBlock.outline, Option.map_some, List.cons.injEq, Outline.code.injEq,
    Option.some.injEq, and_true] at hleaf
  have hcode := @ReadsAs.code source span.start next given pieces span (by omega)
  have hfence := fence_eq hparts.fenceOf hdiffers (by rw [hhere, List.append_assoc]) hends
  rw [hfence, hleaf.1, hleaf.2] at hcode
  exact ⟨_, _, readBlock_leaf hentered (hbehind.trans hrest.symm), hbehind, hcode⟩

/-! ## Plain blocks -/

theorem headingLine_text {text : Text} (hone : OneLine text)
    (htext : TokenLine.isText extensions text = true) (hheading : isHeadingText text = true) :
    HeadingLine text ∧ ¬ClosedByHashes text := by
  simp only [isHeadingText, Bool.and_eq_true, Option.any_eq_true, Bool.not_eq_true',
    decide_eq_true_eq] at hheading
  simp only [TokenLine.isText, Bool.and_eq_true, Option.any_eq_true, Bool.not_eq_true'] at htext
  have hline : HeadingLine text := ⟨hone, hheading.1, htext.2⟩
  exact ⟨hline, (headingContent_eq_length_iff hline).mp hheading.2⟩

theorem readsBlock_hashes {level : Nat} {content : List Inline}
    (hplain : isPlain extensions (.heading level content) = true) (hcarriage : '\r' ∉ source)
    (hhere : source.drop position = Printer.heading level content ++ '\n' :: tail) :
    ReadsBlock extensions source tail (reread (.heading level content)) position := by
  simp only [isPlain, settled, Bool.and_eq_true, decide_eq_true_eq, List.all_eq_true] at hplain
  obtain ⟨⟨⟨hlow, hhigh⟩, htexts⟩, hheadings⟩ := hplain
  simp only [reread, textOf] at htexts hheadings ⊢
  split at htexts
  · next hnone =>
      rw [heading_eq, if_pos hnone] at hhere
      rw [if_pos hnone]
      exact readsBlock_noHeading hlow hhigh hhere
  · next hsome =>
      rw [heading_eq, if_neg hsome, List.append_assoc, List.cons_append] at hhere
      rw [if_neg hsome] at hheadings ⊢
      have hone : OneLine (headingText content) := by
        refine ⟨feed_spaced _, fun hmem => hcarriage (List.mem_of_mem_drop (i := position) ?_)⟩
        rw [hhere]
        exact List.mem_append_right _ (List.mem_cons_of_mem _ (List.mem_append_left _ hmem))
      obtain ⟨hline, hopen⟩ := headingLine_text hone (htexts _ List.mem_cons_self)
        (hheadings _ List.mem_cons_self)
      exact readsBlock_heading hlow hhigh hline hopen (htexts _ List.mem_cons_self) hhere

theorem settled_of_isPlain {block : Block} (hplain : isPlain extensions block = true) :
    settled extensions block = true := by
  simp only [isPlain, Bool.and_eq_true] at hplain
  exact hplain.1.1

/-- A plain block is read as it was printed, where a blank line follows unless it is a heading. -/
theorem readsBlock {block : Block} (hplain : isPlain extensions block = true)
    (hcarriage : '\r' ∉ source) (hstarts : StartsLine source position)
    (hhere : source.drop position = below [] (lines block) ++ tail)
    (hblank : isHeading block = false → ∃ behind, tail = '\n' :: behind) :
    ReadsBlock extensions source tail (reread block) position := by
  have hsettled := settled_of_isPlain hplain
  have hones := oneLine_here hcarriage (prints_block block hsettled).feed hhere
  cases block with
  | paragraph content =>
      obtain ⟨behind, rfl⟩ := hblank rfl
      simp only [isPlain, Bool.and_eq_true, List.all_eq_true, textOf] at hplain
      exact readsBlock_paragraph hsettled hplain.1.2 hones hstarts hhere
  | heading level content =>
      exact readsBlock_hashes hplain hcarriage (by simpa [lines, below] using hhere)
  | quote depth children => simp [isPlain] at hplain
  | list kind tight items => simp [isPlain] at hplain
  | verbatim content =>
      cases content with
      | rule marker =>
          simp only [isPlain, Bool.and_eq_true, decide_eq_true_eq] at hplain
          rw [lines_rule hsettled] at hhere hones
          rw [below_cons, below_nil, carry_nil, List.append_assoc] at hhere
          exact readsBlock_rule hsettled hplain.2 (hones marker List.mem_cons_self).2 hhere
      | code fence info text =>
          cases fence with
          | none => cases hsettled
          | some fence => exact readsBlock_code hsettled hones hhere
      | _ => cases hsettled

theorem steps_blankLines (n : Nat) {behind : Text}
    (hhere : source.drop position = below [] (List.replicate n []) ++ behind) :
    ∃ last, Steps (between extensions source blocks position lastBlank)
        (between extensions source blocks (position + n) last) ∧
      source.drop (position + n) = behind := by
  induction n generalizing position lastBlank with
  | zero => exact ⟨lastBlank, .refl _, hhere⟩
  | succ n ih =>
      rw [List.replicate_succ, below_cons, carry_nil, List.append_assoc, List.nil_append,
        List.cons_append] at hhere
      have hnext : source.drop (position + 1) = below [] (List.replicate n []) ++ behind := by
        rw [← List.drop_drop, hhere]
        rfl
      obtain ⟨last, hsteps, hdone⟩ := @ih (position + 1) true hnext
      rw [Nat.add_assoc, Nat.add_comm 1] at hsteps hdone
      refine ⟨last, .step ?_ (by rwa [blankLine_between hhere]), hdone⟩
      rw [blankLine_between hhere]
      change (source.drop (position + 1)).length < (source.drop position).length
      rw [hnext, hhere]
      exact Nat.lt_succ_self _

theorem startsLine_below {lines : List Text} (hsome : lines ≠ [])
    (hhere : source.drop position = below [] lines ++ tail) {stop : Nat}
    (hthere : source.drop stop = tail) (hmore : source.drop stop ≠ []) :
    StartsLine source stop := by
  obtain ⟨before, last, rfl⟩ := (List.eq_nil_or_concat lines).resolve_left hsome
  have hshape : source.drop position = (below [] before ++ last) ++ '\n' :: tail := by
    rw [hhere, List.concat_eq_append, below_append, below_cons, below_nil, carry_nil]
    simp
  generalize below [] before ++ last = front at hshape
  have hsize : stop = position + front.length + 1 := by
    have hfirst := congrArg List.length hshape
    have hsecond := congrArg List.length hthere
    have hfilled := List.length_pos_of_ne_nil hmore
    simp only [List.length_drop, List.length_append, List.length_cons] at hfirst hsecond hfilled
    omega
  intro _
  rw [hsize, Nat.add_sub_cancel, ← List.drop_drop, hshape, List.drop_left]
  rfl

/-- Plain blocks are read one after the other, each as it was printed. -/
theorem reads_plain (hcarriage : '\r' ∉ source) {compact : Bool} {document : Document}
    (hplain : ∀ block ∈ document, isPlain extensions block = true)
    (hstarts : source.drop position ≠ [] → StartsLine source position)
    (hhere : source.drop position = below [] (allLines (.document compact) document)) :
    ∃ trees stop last, Steps (between extensions source blocks position lastBlank)
        (between extensions source (trees.reverse ++ blocks) stop last) ∧
      source.drop stop = [] ∧ AllReadAs source position trees (document.map reread) := by
  induction document generalizing position blocks lastBlank with
  | nil => exact ⟨[], position, lastBlank, .refl _, hhere, .nil _⟩
  | cons block rest ih =>
      obtain ⟨hfirst, hothers⟩ := List.forall_mem_cons.mp hplain
      obtain ⟨line, later, hshape⟩ := exists_lines (settled_of_isPlain hfirst)
      have hfilled : 0 < (below [] (lines block)).length := by
        rw [hshape, below_cons, List.length_append, List.length_cons]
        omega
      rw [allLines, below_append, below_append, List.append_assoc] at hhere
      have hblank : isHeading block = false → ∃ behind,
          below [] (List.replicate (Spacing.gap (isHeading block) rest.isEmpty (.document compact))
            []) ++ below [] (allLines (.document compact) rest) = '\n' :: behind := by
        intro hnone
        simp [hnone, Spacing.gap, below]
      have hsome : source.drop position ≠ [] := by
        rw [hhere]
        exact List.append_ne_nil_of_left_ne_nil (List.ne_nil_of_length_pos hfilled) _
      obtain ⟨tree, stop, hread, hbehind, hreads⟩ := readsBlock hfirst hcarriage (hstarts hsome)
        hhere hblank blocks lastBlank
      obtain ⟨lastBlank', hsteps, hnext⟩ := @steps_blankLines extensions source (tree :: blocks)
        stop false _ _ hbehind
      have hshorter : (source.drop stop).length < (source.drop position).length := by
        simp only [hbehind, hhere, List.length_append]
        omega
      rw [← List.append_assoc, ← below_append] at hhere
      obtain ⟨trees, last, lastBlank'', hmore, hdone, hreadsAll⟩ :=
        @ih (tree :: blocks) _ lastBlank'
        hothers (startsLine_below (by simp [hshape]) hhere hnext) hnext
      refine ⟨tree :: trees, last, lastBlank'', .step ?_ ?_, hdone,
        .cons hreads (Nat.le_add_right _ _) hreadsAll⟩
      · rw [hread]
        exact hshorter
      · rw [hread, List.reverse_cons, List.append_assoc]
        exact hsteps.trans hmore

/-- What is printed for plain blocks is read as these blocks again. -/
theorem read_document {compact : Bool} {document : Document}
    (hplain : ∀ block ∈ document, isPlain extensions block = true)
    (hcarriage : '\r' ∉ Printer.document compact document) :
    Document.read extensions (Printer.document compact document) = document.map reread := by
  have hprints : ∀ block ∈ document, Prints block := fun block hmem =>
    prints_block block (settled_of_isPlain (hplain block hmem))
  obtain ⟨trees, stop, last, hsteps, hdone, hreads⟩ :=
    @reads_plain extensions _ [] 0 false hcarriage compact document hplain
      (fun _ hfirst => absurd hfirst (Nat.lt_irrefl 0)) (document_of_prints compact hprints)
  have hall := hsteps.readBlocks hdone (Nat.lt_succ_self _)
  have hreader : BlockReader.readSource extensions (Printer.document compact document)
      = between extensions (Printer.document compact document) (trees.reverse ++ []) stop last := by
    exact congrArg (fun reader => reader.closeTo 0 reader.position) hall
  refine hreads.read ?_ ?_
  · rw [hreader]
    simp [between]
  · rw [hreader]
    rfl

end Canonmark.Printed
