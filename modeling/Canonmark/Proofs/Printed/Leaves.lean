import Canonmark.Proofs.Printed.Lines
import Canonmark.Proofs.Printed.Text

/-!
# Printed leaves

Rules, headings and fenced code are read from the lines that they are printed in, and leave the
reader where it stood.
-/

namespace Canonmark.Printed

open Source

variable {extensions : Extensions} {source : Text} {reader : BlockReader}
variable {levels : List Level} {draft : Draft} {more : List Container}
variable {containers : List Container}

structure EndsLeaf (source tail : Text) (found : List Outline) (place : Place) (read : LeafRead) :
    Prop where
  leaf : read.leaf.outline place = found
  position : source.drop read.position = tail
  rest : read.rest = tail

theorem AtLeaf.finish (h : AtLeaf extensions source levels draft reader) {tail : Text}
    {found : List Outline} {read : LeafRead}
    (hends : EndsLeaf source tail found (place levels) read) :
    Reads extensions source levels (draft.append found) [] (BlockReader.finishLeaf read reader) ∧
      (BlockReader.finishLeaf read reader).rest = tail := by
  have hfinished := h.finishLeaf (hends.position.trans hends.rest.symm)
  rw [hends.leaf] at hfinished
  exact ⟨hfinished, hends.rest⟩

theorem lines_rule {marker : Text} (h : settledRule extensions marker = true) :
    lines (.verbatim (.rule marker)) = [marker] := by
  simp only [settledRule, Bool.and_eq_true, Bool.not_eq_true'] at h
  have hfeed : '\n' ∉ marker := by simpa using h.1.1
  exact Text.splitLines_line hfeed

theorem enter_rule (h : AtLeaf extensions source levels draft (reader.finishList reader.position))
    {marker : Text} (hsettled : settledRule extensions marker = true) (hcarriage : '\r' ∉ marker)
    (tail : Text) (fuel taken : Nat) :
    enter fuel (headAt taken (marker ++ '\n' :: tail)) reader
      = BlockReader.finishLeaf
          ⟨.rule, .ofLength (reader.position + taken) (marker.length + 1),
            reader.position + taken + (marker.length + 1), tail⟩
          (reader.finishList reader.position) := by
  simp only [settledRule, Bool.and_eq_true, Bool.not_eq_true', decide_eq_true_eq] at hsettled
  obtain ⟨⟨hfeed, hrule⟩, hmetadata⟩ := hsettled
  have hone : OneLine marker := ⟨by simpa using hfeed, hcarriage⟩
  rw [(hone.same tail).rule?] at hrule
  obtain ⟨c, rest, hshape, hmark⟩ := rule?_head hrule
  have hplain : PlainFront extensions (marker ++ '\n' :: tail) := by
    refine ⟨?_, metadata_line hone.1 hmetadata tail, fun htag => ?_⟩
    · rw [hshape]
      rcases hmark with rfl | rfl | rfl <;> simp
    · rw [hshape] at htag
      rcases hmark with rfl | rfl | rfl <;> cases htag
  have hentered : enter fuel (headAt taken (marker ++ '\n' :: tail)) reader
      = BlockReader.readLeaf (headAt taken (marker ++ '\n' :: tail)) reader := by
    have hmarks : (rule? (c :: rest)).isSome = true := by rw [← hshape, hrule]; rfl
    rw [hshape]
    rcases hmark with rfl | rfl | rfl
    all_goals
      exact enter_leaf (by simp) (footnote?_marker (by decide) taken reader)
        (itemMarker?_none_of_head rfl (fun _ => hmarks) taken) (by simp) rfl fuel
  rw [hentered, readLeaf_eq h hplain, hrule, Option.elim_some, drop_line]

theorem Reads.rule (h : Reads extensions source levels draft more reader) (hlist : IsList more)
    {marker : Text} (hsettled : settledRule extensions marker = true) (hcarriage : '\r' ∉ marker)
    {tail : Text} {taken : Nat}
    (hlocated : source.drop (reader.position + taken) = marker ++ '\n' :: tail) (fuel : Nat) :
    Reads extensions source levels (draft.append [.rule]) []
        (enter fuel (headAt taken (marker ++ '\n' :: tail)) reader) ∧
      (enter fuel (headAt taken (marker ++ '\n' :: tail)) reader).rest = tail := by
  have hatLeaf := h.atLeaf hlist reader.position
  rw [enter_rule hatLeaf hsettled hcarriage]
  apply hatLeaf.finish
  refine ⟨rfl, ?_, rfl⟩
  rw [← List.drop_drop, hlocated, drop_line]

/-! ## Headings -/

/-- A hash, a backtick or a tilde in front is no rule, and starts neither a container nor
metadata nor HTML. -/
def Neutral (text : Text) : Prop :=
  ∃ c rest, text = c :: rest ∧ (c = '#' ∨ c = '\x60' ∨ c = '~')

theorem Neutral.rule? {text : Text} (h : Neutral text) : Source.rule? text = none := by
  obtain ⟨c, rest, rfl, rfl | rfl | rfl⟩ := h <;> rfl

theorem Neutral.plain {text : Text} (h : Neutral text) : PlainFront extensions text := by
  obtain ⟨c, rest, rfl, hchar⟩ := h
  have hmetadata : startsMetadata (c :: rest) = false := by
    rcases hchar with rfl | rfl | rfl <;> rfl
  refine ⟨?_, by rw [hmetadata, Bool.and_false], fun htag => ?_⟩
  · rcases hchar with rfl | rfl | rfl <;> simp
  · rcases hchar with rfl | rfl | rfl <;> cases htag

theorem Neutral.enter {text : Text} (h : Neutral text) (fuel taken : Nat) (reader : BlockReader) :
    enter fuel (headAt taken text) reader = BlockReader.readLeaf (headAt taken text) reader := by
  obtain ⟨c, rest, rfl, rfl | rfl | rfl⟩ := h
  all_goals
    exact enter_leaf (by simp) (footnote?_marker (by decide) taken reader)
      (itemMarker?_none_of_head rfl (fun hbullet => by cases hbullet) taken) (by simp) rfl fuel

theorem drop_hashes (level : Nat) (behind : Text) :
    (List.replicate level '#' ++ behind).drop level = behind :=
  List.drop_left' List.length_replicate

/-- What stands behind the hashes of a heading: nothing, or a space and its text. -/
inductive HeadingText : Text → Prop
  | nil : HeadingText []
  | cons (text : Text) : HeadingText (' ' :: text)

theorem heading_shape (level : Nat) (content : List Inline) :
    ∃ text, HeadingText text ∧
      Printer.heading level content = List.replicate level '#' ++ text := by
  simp only [Printer.heading]
  split
  · exact ⟨[], .nil, (List.append_nil _).symm⟩
  · exact ⟨_, .cons _, rfl⟩

theorem headingLevel?_hashes {level : Nat} (hlow : 1 ≤ level) (hhigh : level ≤ 6) {text : Text}
    (hshape : HeadingText text) (tail : Text) :
    headingLevel? (List.replicate level '#' ++ (text ++ '\n' :: tail)) = some level := by
  have hcount :
      countWhile (· = '#') (List.replicate level '#' ++ (text ++ '\n' :: tail)) = level := by
    have hbehind : (text ++ '\n' :: tail).takeWhile (· = '#') = [] := by
      cases hshape <;> rfl
    rw [countWhile, List.takeWhile_append_of_pos (by simp), hbehind, List.append_nil,
      List.length_replicate]
  simp only [headingLevel?, hcount, drop_hashes]
  rw [if_pos]
  cases hshape <;> simp [hlow, hhigh] <;> rfl

theorem heading_ends (extensions : Extensions) (hcarriage : '\r' ∉ source)
    {level position : Nat} {text tail : Text} (hshape : HeadingText text) (hfeed : '\n' ∉ text)
    (hlocated : source.drop position = List.replicate level '#' ++ (text ++ '\n' :: tail))
    (place : Place) :
    EndsLeaf source tail [.heading level] place (LeafReader.heading extensions position level
      (List.replicate level '#' ++ (text ++ '\n' :: tail))) := by
  have hbehind : source.drop (position + level) = text ++ '\n' :: tail := by
    rw [← List.drop_drop, hlocated, drop_hashes]
  simp only [LeafReader.heading, drop_hashes]
  cases hshape with
  | nil =>
      refine ⟨rfl, ?_, rfl⟩
      have hstop := congrArg (List.drop 1) hbehind
      rw [List.drop_drop] at hstop
      exact hstop
  | cons text =>
      have hopen : eol? (' ' :: text ++ '\n' :: tail) = none := rfl
      have hblanks :
          countWhile Ascii.isBlank (' ' :: text ++ '\n' :: tail) ≤ (' ' :: text).length := by
        rw [countWhile, Text.takeWhile_line rfl]
        exact (List.takeWhile_sublist _).length_le
      have hcontent : (' ' :: text ++ '\n' :: tail).drop
            (countWhile Ascii.isBlank (' ' :: text ++ '\n' :: tail))
          = (' ' :: text).drop (countWhile Ascii.isBlank (' ' :: text ++ '\n' :: tail))
            ++ '\n' :: tail := List.drop_append_of_le_length hblanks
      have hthere := congrArg
        (List.drop (countWhile Ascii.isBlank (' ' :: text ++ '\n' :: tail))) hbehind
      rw [List.drop_drop, hcontent] at hthere
      obtain ⟨hrest, hended⟩ := read_line_located extensions hcarriage
        (fun hmem => hfeed (List.mem_of_mem_drop hmem)) hthere []
      simp only [hopen, hcontent]
      exact ⟨rfl, hended, hrest⟩

theorem enter_heading
    (h : AtLeaf extensions source levels draft (reader.finishList reader.position)) {level : Nat}
    (hlow : 1 ≤ level) (hhigh : level ≤ 6) {text : Text} (hshape : HeadingText text) (tail : Text)
    (fuel taken : Nat) :
    enter fuel (headAt taken (List.replicate level '#' ++ (text ++ '\n' :: tail))) reader
      = BlockReader.finishLeaf
          (LeafReader.heading extensions (reader.position + taken) level
            (List.replicate level '#' ++ (text ++ '\n' :: tail)))
          (reader.finishList reader.position) := by
  have hneutral : Neutral (List.replicate level '#' ++ (text ++ '\n' :: tail)) := by
    obtain ⟨level, rfl⟩ := Nat.exists_eq_add_of_le' hlow
    exact ⟨'#', _, rfl, .inl rfl⟩
  rw [hneutral.enter, readLeaf_eq h hneutral.plain, hneutral.rule?,
    headingLevel?_hashes hlow hhigh hshape tail]
  rfl

theorem Reads.heading (h : Reads extensions source levels draft more reader) (hlist : IsList more)
    (hcarriage : '\r' ∉ source) {level : Nat} (hlow : 1 ≤ level) (hhigh : level ≤ 6)
    (content : List Inline) {tail : Text} {taken : Nat}
    (hlocated : source.drop (reader.position + taken)
      = Printer.heading level content ++ '\n' :: tail) (fuel : Nat) :
    Reads extensions source levels (draft.append [.heading level]) []
        (enter fuel (headAt taken (Printer.heading level content ++ '\n' :: tail)) reader) ∧
      (enter fuel (headAt taken (Printer.heading level content ++ '\n' :: tail)) reader).rest
        = tail := by
  have hfeed := feed_heading level content
  obtain ⟨text, hshape, hsame⟩ := heading_shape level content
  rw [hsame] at hfeed hlocated ⊢
  rw [List.append_assoc] at hlocated ⊢
  have hends := heading_ends extensions hcarriage hshape
    (fun hmem => hfeed (List.mem_append_right _ hmem)) hlocated (place levels)
  have hatLeaf := h.atLeaf hlist reader.position
  rw [enter_heading hatLeaf hlow hhigh hshape]
  exact hatLeaf.finish hends

/-! ## Fenced code -/

structure FenceOf (c : Char) (size : Nat) (fence : Text) : Prop where
  char : c = '\x60' ∨ c = '~'
  shape : fence = List.replicate size c
  long : 3 ≤ size

theorem fenceOf_isFence {fence : Text} (h : isFence fence = true) :
    ∃ c, FenceOf c fence.length fence := by
  cases fence with
  | nil => cases h
  | cons c rest =>
      simp only [isFence, Bool.and_eq_true, Bool.or_eq_true, decide_eq_true_eq,
        List.all_eq_true] at h
      exact ⟨c, h.1.1, List.eq_replicate_of_mem h.2, h.1.2⟩

theorem FenceOf.countWhile {c : Char} {size : Nat} {fence : Text} (h : FenceOf c size fence)
    {behind : Text} (hfront : behind.head? ≠ some c) :
    countWhile (· = c) (fence ++ behind) = size := by
  have hnone : behind.takeWhile (· = c) = [] := by
    cases behind with
    | nil => rfl
    | cons d rest =>
        have hother : d ≠ c := fun hsame => hfront (congrArg some hsame)
        simp [hother]
  rw [Source.countWhile, h.shape, List.takeWhile_append_of_pos (by simp), hnone, List.append_nil,
    List.length_replicate]

theorem FenceOf.exists_cons {c : Char} {size : Nat} {fence : Text} (h : FenceOf c size fence) :
    ∃ rest, fence = c :: rest := by
  obtain ⟨n, rfl⟩ := Nat.exists_eq_add_of_le' h.long
  exact ⟨_, h.shape⟩

theorem FenceOf.closes {c : Char} {size : Nat} {fence : Text} (h : FenceOf c size fence)
    (tail : Text) : closingFence? c size (fence ++ '\n' :: tail) = some size := by
  have hfront : ('\n' :: tail).head? ≠ some c := by
    rcases h.char with rfl | rfl <;> simp
  have hcount := h.countWhile hfront
  have hdrop : (fence ++ '\n' :: tail).drop size = '\n' :: tail :=
    List.drop_left' (by rw [h.shape, List.length_replicate])
  have hspaces : Source.countWhile (· = ' ') ('\n' :: tail) = 0 := rfl
  have hsome : (fence ++ '\n' :: tail).isEmpty = false := by
    obtain ⟨rest, hshape⟩ := h.exists_cons
    rw [hshape]
    rfl
  simp only [closingFence?, hsome, hcount, hdrop, hspaces, Nat.add_zero]
  simp [eol?]

def isIndent (c : Char) : Bool := c = ' ' || c = '\t'

theorem takeColumns_missing {taken stop columns : Nat} {text : Text}
    (h : (LineHead.takeColumns taken stop columns text).1 ≠ 0) :
    (LineHead.takeColumns taken stop columns text).2.rest = text.dropWhile isIndent := by
  induction text generalizing taken stop columns with
  | nil => rfl
  | cons c rest ih =>
      simp only [LineHead.takeColumns] at h ⊢
      split_ifs at h ⊢ with hnone hspace htab
      · exact absurd rfl h
      · rw [ih h]
        simp [isIndent, hspace]
      · exact absurd rfl h
      · rw [ih h]
        simp [isIndent, htab]
      · simp [isIndent, hspace, htab]

theorem takeExactly_missing {taken columns : Nat} {text : Text}
    (h : ((headAt taken text).takeExactly (columns + 1)).1 = false) :
    ((headAt taken text).takeExactly (columns + 1)).2.rest = text.dropWhile isIndent := by
  rw [LineHead.takeExactly, takeMissing_succ] at h ⊢
  exact takeColumns_missing (by simpa using h)

theorem dropWhile_line {p : Char → Bool} (hp : p '\n' = false) (line behind : Text) :
    (line ++ '\n' :: behind).dropWhile p = line.dropWhile p ++ '\n' :: behind := by
  induction line with
  | nil => simp [hp]
  | cons c rest ih =>
      rw [List.cons_append, List.dropWhile_cons, List.dropWhile_cons, ih]
      split <;> rfl

theorem closingFence?_none {c : Char} {size : Nat} {fence line : Text} (h : FenceOf c size fence)
    (hone : OneLine line) (hopen : closesFence fence line = false) (behind : Text) :
    closingFence? c size ((line ++ '\n' :: behind).dropWhile isIndent) = none := by
  have hfeed : c ≠ '\n' := by
    rcases h.char with rfl | rfl <;> decide
  have hinner : OneLine (line.dropWhile isIndent) := by
    have hsublist := List.dropWhile_suffix (l := line) isIndent
    exact ⟨fun hmem => hone.1 (hsublist.subset hmem), fun hmem => hone.2 (hsublist.subset hmem)⟩
  obtain ⟨rest, hshape⟩ := h.exists_cons
  have hlength : fence.length = size := by rw [h.shape, List.length_replicate]
  rw [dropWhile_line rfl, ← (hinner.same behind).closingFence? hfeed]
  rw [hshape] at hlength hopen
  simp only [closesFence, hlength, Option.isSome_eq_false_iff, Option.isNone_iff_eq_none] at hopen
  exact hopen

theorem literalText_append (first second : List LocatedPiece) :
    literalText (first ++ second) = literalText first ++ literalText second := by
  simp [literalText]

theorem literalText_line {line : Text} (hone : OneLine line) (position : Nat) (behind : Text) :
    literalText (LeafReader.literalLine .text 0 position (line ++ '\n' :: behind))
      = line ++ ['\n'] := by
  have hwhole : LeafReader.lineParts position (line ++ ['\n'])
      = [(line ++ ['\n'], .ofLength position (line ++ ['\n']).length)] := by
    rw [LeafReader.lineParts, if_neg]
    intro hbroken
    simp only [Bool.and_eq_true, decide_eq_true_eq] at hbroken
    have hmem := List.mem_of_mem_drop (List.mem_of_mem_head? hbroken.2)
    exact hone.2 (by simpa using hmem)
  simp [LeafReader.literalLine, take_line hone.1, hwhole, literalText, LiteralPiece.content]

structure EndsCode (source tail code : Text)
    (read : List LocatedPiece × Nat × Nat × Text) : Prop where
  code : literalText read.1.reverse = code
  position : source.drop read.2.2.1 = tail
  rest : read.2.2.2 = tail

theorem fencedFrom_close (hfits : Fits levels containers) {c : Char} {size : Nat} {fence : Text}
    (h : FenceOf c size fence) {tail : Text} {position : Nat} (fuel : Nat)
    (hlocated : source.drop position = carry levels fence ++ '\n' :: tail)
    (pieces : List LocatedPiece) :
    EndsCode source tail (literalText pieces.reverse)
      (LeafReader.fencedFrom containers 0 c size (fuel + 1) pieces position
        (carry levels fence ++ '\n' :: tail)) := by
  obtain ⟨front, hshape, hwithin⟩ := within_carry hfits fence tail
  obtain ⟨rest, hcons⟩ := h.exists_cons
  have hblank : (fence ++ '\n' :: tail).head? ≠ some ' ' ∧
      (fence ++ '\n' :: tail).head? ≠ some '\t' := by
    rw [hcons]
    rcases h.char with rfl | rfl <;> simp
  have hcontent := takeExactly_headAt hblank front.length 0
  have hclosing := takeExactly_headAt hblank front.length 4
  have hcloses := h.closes tail
  have hdrop : (fence ++ '\n' :: tail).drop size = '\n' :: tail :=
    List.drop_left' (by rw [h.shape, List.length_replicate])
  have hending : blankLine? ('\n' :: tail) = some 1 := rfl
  have htext : (headAt front.length (fence ++ '\n' :: tail)).rest = fence ++ '\n' :: tail := rfl
  have hopen : ¬decide (4 = 0) = true := by decide
  rw [LeafReader.fencedFrom]
  simp only [hwithin, hcontent, hclosing, htext, hcloses, if_neg hopen, Bool.not_true,
    Bool.false_eq_true, if_false, hdrop, hending, Option.getD_some]
  refine ⟨rfl, ?_, rfl⟩
  have hinside : source.drop (position + front.length) = fence ++ '\n' :: tail := by
    rw [← List.drop_drop, hlocated, hshape, List.append_assoc, List.drop_left]
  have hthere : source.drop (position + front.length + size) = '\n' :: tail := by
    rw [← List.drop_drop, hinside, hdrop]
  have hstop := congrArg (List.drop 1) hthere
  rw [List.drop_drop] at hstop
  exact hstop

theorem fencedFrom_spec (hfits : Fits levels containers) {c : Char} {size : Nat} {fence : Text}
    (h : FenceOf c size fence) {code : List Text} (hones : ∀ line ∈ code, OneLine line)
    (hopen : ∀ line ∈ code, closesFence fence line = false) {tail : Text} {position fuel : Nat}
    (hlocated : source.drop position = below levels code ++ (carry levels fence ++ '\n' :: tail))
    (henough : code.length < fuel) (pieces : List LocatedPiece) :
    EndsCode source tail (literalText pieces.reverse ++ below [] code)
      (LeafReader.fencedFrom containers 0 c size fuel pieces position
        (below levels code ++ (carry levels fence ++ '\n' :: tail))) := by
  induction code generalizing position fuel pieces with
  | nil =>
      obtain ⟨fuel, rfl⟩ := Nat.exists_eq_add_of_lt henough
      rw [below_nil, List.nil_append] at hlocated
      rw [below_nil, below_nil, List.nil_append, List.append_nil]
      exact fencedFrom_close hfits h _ hlocated pieces
  | cons line code ih =>
      obtain ⟨fuel, rfl⟩ := Nat.exists_eq_add_of_lt henough
      have hone := hones line List.mem_cons_self
      have hliteral := hopen line List.mem_cons_self
      have hones := fun line' hmem => hones line' (List.mem_cons_of_mem line hmem)
      have hopen := fun line' hmem => hopen line' (List.mem_cons_of_mem line hmem)
      have hsplit : below levels (line :: code) ++ (carry levels fence ++ '\n' :: tail)
          = carry levels line ++ '\n' ::
            (below levels code ++ (carry levels fence ++ '\n' :: tail)) := by
        rw [below_cons, List.append_assoc, List.cons_append]
      rw [hsplit] at hlocated ⊢
      generalize hbehind : below levels code ++ (carry levels fence ++ '\n' :: tail) = behind
        at hlocated ih ⊢
      obtain ⟨front, hshape, hwithin⟩ := within_carry hfits line behind
      have hcontent : (headAt front.length (line ++ '\n' :: behind)).takeExactly 0
          = (true, headAt front.length (line ++ '\n' :: behind)) := by
        rw [LineHead.takeExactly, takeMissing_zero]
        rfl
      have hnone : (if ((headAt front.length (line ++ '\n' :: behind)).takeExactly 4).1 = true
          then none
          else closingFence? c size
            ((headAt front.length (line ++ '\n' :: behind)).takeExactly 4).2.rest) = none := by
        split
        · rfl
        · next hmissing =>
            rw [takeExactly_missing (by simpa using hmissing)]
            exact closingFence?_none h hone hliteral behind
      have htext :
          (headAt front.length (line ++ '\n' :: behind)).rest = line ++ '\n' :: behind := rfl
      have htaken : (headAt front.length (line ++ '\n' :: behind)).taken = front.length := rfl
      have hpending : (headAt front.length (line ++ '\n' :: behind)).pending = 0 := rfl
      rw [LeafReader.fencedFrom]
      simp only [hwithin, hcontent, hnone, htext, htaken, hpending, lineLength_line hone.1,
        drop_line]
      have hinside : source.drop (position + front.length) = line ++ '\n' :: behind := by
        rw [← List.drop_drop, hlocated, hshape, List.append_assoc, List.drop_left]
      have hthere : source.drop (position + front.length + (line.length + 1)) = behind := by
        rw [← List.drop_drop, hinside, drop_line]
      have hshorter : code.length < (line :: code).length + fuel := by
        rw [List.length_cons]
        omega
      have hends := ih hones hopen hthere hshorter
        ((LeafReader.literalLine .text 0 (position + front.length)
          (line ++ '\n' :: behind)).reverse ++ pieces)
      rw [List.reverse_append, List.reverse_reverse, literalText_append,
        literalText_line hone] at hends
      have hcode : literalText pieces.reverse ++ below [] (line :: code)
          = literalText pieces.reverse ++ (line ++ ['\n']) ++ below [] code := by
        rw [below_cons, carry_nil]
        simp
      rw [hcode]
      exact hends

theorem exists_codeLines {text : Text} (h : text = [] ∨ text.getLast? = some '\n') :
    ∃ code, text = below [] code ∧ ∀ behind, '\n' ∉ behind →
      Text.splitLines (text ++ behind) = code ++ [behind] := by
  rcases h with rfl | hlast
  · exact ⟨[], rfl, fun behind hfeed => Text.splitLines_line hfeed⟩
  · obtain ⟨front, rfl⟩ := List.getLast?_eq_some_iff.mp hlast
    refine ⟨Text.splitLines front, (below_splitLines front).symm, fun behind hfeed => ?_⟩
    rw [List.append_assoc, List.singleton_append, Text.splitLines_append,
      Text.splitLines_line hfeed]

theorem verbatim_code (fence info : Text) {text : Text}
    (h : text = [] ∨ text.getLast? = some '\n') :
    Printer.verbatim (.code (some fence) info text) = fence ++ info ++ '\n' :: (text ++ fence) := by
  have hprinted : Printer.verbatim (.code (some fence) info text)
      = fence ++ info ++ '\n' :: (if text.isEmpty then []
          else (if text.getLast? = some '\n' then text.dropLast else text) ++ ['\n']) ++ fence :=
            rfl
  rw [hprinted]
  rcases h with rfl | hlast
  · simp
  · obtain ⟨front, rfl⟩ := List.getLast?_eq_some_iff.mp hlast
    simp

structure CodeParts (c : Char) (fence info text : Text) : Prop where
  fenceOf : FenceOf c fence.length fence
  differs : info.head? ≠ some c
  ticks : c = '\x60' → c ∉ info
  trimmed : Text.trimBoth Ascii.isSpace info = info
  trim : Unicode.trim info = info
  resolved : Escape.resolve info = info
  feed : '\n' ∉ info
  ended : text = [] ∨ text.getLast? = some '\n'
  unclosed : ∀ line ∈ Text.splitLines text, closesFence fence line = false

theorem exists_codeParts {fence info text : Text} (h : settledCode fence info text = true) :
    ∃ c, CodeParts c fence info text := by
  simp only [settledCode, Bool.and_eq_true, Bool.or_eq_true, List.isEmpty_iff, decide_eq_true_eq,
    List.all_eq_true, Bool.not_eq_true'] at h
  obtain ⟨⟨⟨hfence, hparts⟩, hended⟩, hopen⟩ := h
  obtain ⟨c, hfenceOf⟩ := fenceOf_isFence hfence
  obtain ⟨rest, hshape⟩ := hfenceOf.exists_cons
  simp only [settledInfo, Bool.and_eq_true, decide_eq_true_eq, Bool.not_eq_true', hshape,
    List.head?_cons, Bool.and_eq_false_iff, decide_eq_false_iff_not] at hparts
  obtain ⟨⟨⟨⟨⟨hdiffers, htrimmed⟩, htrim⟩, hfeed⟩, hresolved⟩, hticks⟩ := hparts
  refine ⟨c, hfenceOf, hdiffers, ?_, htrimmed, htrim, hresolved, by simpa using hfeed, hended,
    hopen⟩
  rintro rfl
  rcases hticks with hother | hnone
  · exact absurd rfl hother
  · simpa using hnone

theorem FenceOf.feed {c : Char} {size : Nat} {fence : Text} (h : FenceOf c size fence) :
    '\n' ∉ fence := by
  rw [h.shape]
  rcases h.char with rfl | rfl <;> simp [List.mem_replicate]

theorem CodeParts.lines {c : Char} {fence info text : Text} (h : CodeParts c fence info text) :
    ∃ code, text = below [] code ∧ (∀ line ∈ code, closesFence fence line = false) ∧
      lines (.verbatim (.code (some fence) info text)) = (fence ++ info) :: (code ++ [fence]) := by
  have hfenceOf := h.fenceOf
  obtain ⟨code, hsame, hsplit⟩ := exists_codeLines h.ended
  refine ⟨code, hsame, fun line hmem => h.unclosed line ?_, ?_⟩
  · have hall := hsplit [] (by simp)
    rw [List.append_nil] at hall
    rw [hall]
    exact List.mem_append_left _ hmem
  · have hfirst : '\n' ∉ fence ++ info := by simp [hfenceOf.feed, h.feed]
    rw [Printed.lines, verbatim_code fence info h.ended, Text.splitLines_append,
      Text.splitLines_line hfirst, hsplit fence hfenceOf.feed]
    rfl

theorem trimBoth_eq_self {p : Char → Bool} {text : Text} (h : Text.trimBoth p text = text) :
    text.dropWhile p = text ∧ Text.dropEndWhile p text = text := by
  have hsuffix := List.dropWhile_suffix (l := text) p
  have hshort := Text.length_dropEndWhile_le p (text.dropWhile p)
  rw [Text.trimBoth] at h
  rw [h] at hshort
  have hsame := hsuffix.eq_of_length_le hshort
  rw [hsame] at h
  exact ⟨hsame, h⟩

variable {c : Char} {fence info text : Text}

theorem drop_fence (fence info behind : Text) :
    (fence ++ info ++ '\n' :: behind).drop fence.length = info ++ '\n' :: behind := by
  rw [List.append_assoc, List.drop_left]

theorem CodeParts.fence? (h : CodeParts c fence info text) (behind : Text) :
    Source.fence? (fence ++ info ++ '\n' :: behind) = some (fence.length, c) := by
  have hfront : (info ++ '\n' :: behind).head? ≠ some c := by
    have hfeed : c ≠ '\n' := by
      rcases h.fenceOf.char with rfl | rfl <;> decide
    intro hhead
    exact h.differs ((head?_line info behind hfeed).mp hhead)
  have hcount := h.fenceOf.countWhile hfront
  have hplain : (decide (c = '\x60') && (info ++ ['\n']).contains c) = false := by
    by_cases htick : c = '\x60'
    · have hnone := h.ticks htick
      rw [htick] at hnone ⊢
      simpa using hnone
    · simp [htick]
  obtain ⟨rest, hshape⟩ := h.fenceOf.exists_cons
  have hlength := h.fenceOf.long
  have hdrop := drop_fence fence info behind
  rw [List.append_assoc] at hdrop ⊢
  generalize hsize : fence.length = size at hcount hlength hdrop
  rw [hshape, List.cons_append] at hcount hdrop ⊢
  simp only [Source.fence?, hcount, hdrop, take_line h.feed, hplain]
  rw [if_pos, if_neg]
  · simp [hlength]
  · simpa using h.fenceOf.char

theorem CodeParts.info_read (h : CodeParts c fence info text) (behind : Text) :
    countWhile Ascii.isBlank (info ++ '\n' :: behind) = 0 ∧
      Text.dropEndWhile Ascii.isSpace (info ++ ['\n']) = info := by
  obtain ⟨hfront, hback⟩ := trimBoth_eq_self h.trimmed
  refine ⟨?_, (Text.dropEndWhile_concat rfl info).trans hback⟩
  have hnone : info.takeWhile Ascii.isBlank = [] := by
    cases info with
    | nil => rfl
    | cons d rest =>
        have hvisible : Ascii.isSpace d = false := by
          by_contra hspace
          rw [Bool.not_eq_false] at hspace
          rw [List.dropWhile_cons, hspace, if_pos rfl] at hfront
          have hlonger := congrArg List.length hfront
          have hshorter := (List.dropWhile_suffix (l := rest) Ascii.isSpace).length_le
          rw [List.length_cons] at hlonger
          omega
        simp only [Ascii.isSpace, Bool.or_eq_false_iff] at hvisible
        rw [List.takeWhile_cons, hvisible.1.1, if_neg (by decide)]
  rw [countWhile, Text.takeWhile_line rfl, hnone, List.length_nil]

theorem CodeParts.ends (h : CodeParts c fence info text) (hfits : Fits levels containers)
    {code : List Text} (hsame : text = below [] code) (hones : ∀ line ∈ code, OneLine line)
    (hopen : ∀ line ∈ code, closesFence fence line = false) {tail : Text} {position : Nat}
    (hlocated : source.drop position = fence ++ info ++ '\n' ::
      (below levels code ++ (carry levels fence ++ '\n' :: tail))) (place : Place) :
    EndsLeaf source tail [.code (some info) text] place
      (LeafReader.fencedCode containers 0 position c fence.length (fence ++ info ++ '\n' ::
        (below levels code ++ (carry levels fence ++ '\n' :: tail)))) := by
  have henough : code.length < (fence ++ info ++ '\n' ::
      (below levels code ++ (carry levels fence ++ '\n' :: tail))).length + 1 := by
    have hlengths := length_le_below levels code
    simp only [List.length_append, List.length_cons]
    omega
  have hwritten : source.drop (position + fence.length)
      = info ++ '\n' :: (below levels code ++ (carry levels fence ++ '\n' :: tail)) := by
    rw [← List.drop_drop, hlocated, drop_fence]
  have hthere : source.drop (position + fence.length + 0 + (info.length + 1))
      = below levels code ++ (carry levels fence ++ '\n' :: tail) := by
    rw [Nat.add_zero, ← List.drop_drop, hwritten, drop_line]
  obtain ⟨hread, hended, hrest⟩ := fencedFrom_spec hfits h.fenceOf hones hopen hthere henough []
  generalize below levels code ++ (carry levels fence ++ '\n' :: tail) = behind at *
  obtain ⟨hblanks, htrimmed⟩ := h.info_read behind
  have hline := take_line h.feed behind
  rw [lineLength_line h.feed] at hline
  simp only [LeafReader.fencedCode, drop_fence, hblanks, List.drop_zero, lineLength_line h.feed,
    hline, htrimmed, drop_line, h.resolved]
  refine ⟨?_, hended, hrest⟩
  simp only [LeafBlock.outline, Option.map_some, h.trim]
  rw [hread, hsame]
  rfl

theorem CodeParts.enter (hparts : CodeParts c fence info text)
    (h : AtLeaf extensions source levels draft (reader.finishList reader.position))
    (behind : Text) (fuel taken : Nat) :
    enter fuel (headAt taken (fence ++ info ++ '\n' :: behind)) reader
      = BlockReader.finishLeaf
          (LeafReader.fencedCode (reader.finishList reader.position).containers 0
            (reader.position + taken) c fence.length (fence ++ info ++ '\n' :: behind))
          (reader.finishList reader.position) := by
  obtain ⟨rest, hshape⟩ := hparts.fenceOf.exists_cons
  have hneutral : Neutral (fence ++ info ++ '\n' :: behind) :=
    ⟨c, rest ++ info ++ '\n' :: behind, by rw [hshape]; rfl, .inr hparts.fenceOf.char⟩
  have hlevel : headingLevel? (fence ++ info ++ '\n' :: behind) = none := by
    rw [hshape]
    rcases hparts.fenceOf.char with rfl | rfl <;> rfl
  rw [hneutral.enter, readLeaf_eq h hneutral.plain, hneutral.rule?, hlevel, hparts.fence?]
  rfl

/-- The lines of fenced code are read as the code that they were printed for. -/
theorem Reads.code (h : Reads extensions source levels draft more reader) (hlist : IsList more)
    (hparts : CodeParts c fence info text) {code : List Text} (hsame : text = below [] code)
    (hones : ∀ line ∈ code, OneLine line)
    (hopen : ∀ line ∈ code, closesFence fence line = false) {tail : Text} {taken : Nat}
    (hlocated : source.drop (reader.position + taken) = fence ++ info ++ '\n' ::
      (below levels (code ++ [fence]) ++ tail)) (fuel : Nat) :
    Reads extensions source levels (draft.append [.code (some info) text]) []
        (enter fuel (headAt taken (fence ++ info ++ '\n' ::
          (below levels (code ++ [fence]) ++ tail))) reader) ∧
      (enter fuel (headAt taken (fence ++ info ++ '\n' ::
        (below levels (code ++ [fence]) ++ tail))) reader).rest = tail := by
  have hsplit : below levels (code ++ [fence]) ++ tail
      = below levels code ++ (carry levels fence ++ '\n' :: tail) := by
    rw [below_append, below_cons, below_nil]
    simp
  rw [hsplit] at hlocated ⊢
  have hatLeaf := h.atLeaf hlist reader.position
  obtain ⟨containers, hfits, hstands⟩ := hatLeaf.stands
  rw [List.append_nil] at hstands
  rw [hparts.enter hatLeaf, hstands]
  exact hatLeaf.finish (hparts.ends hfits hsame hones hopen hlocated (place levels))

end Canonmark.Printed
