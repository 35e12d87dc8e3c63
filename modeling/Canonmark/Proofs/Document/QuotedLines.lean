import Canonmark.Document.Builder
import Canonmark.Proofs.Document.SplitText

/-!
# Lines of text in quotes

In a quoted paragraph, references are looked for before videos are. A line that consists of a
directive becomes a video unless a reference starts in its address; every other line becomes
texts and references that print it.
-/

namespace Canonmark

namespace VideoDirective

open XrefShortcut (Opens opens_append opens_front opens_behind scanned_split)

variable {line url : Text}

theorem not_mem_whitespace {text : Text} (h : ∀ c ∈ text, Unicode.isWhitespace c = true) :
    '@' ∉ text := fun hmem => Bool.false_ne_true (h '@' hmem)

theorem not_mem_of_equalsIgnoringCase {name : Text}
    (h : Ascii.equalsIgnoringCase name "video".toList = true) : '@' ∉ name := by
  intro hmem
  have hlowered : Ascii.lower '@' ∈ "video".toList.map Ascii.lower :=
    beq_iff_eq.mp h ▸ List.mem_map_of_mem hmem
  exact absurd hlowered (by decide)

/-- White space between the name of a directive and its address. -/
def isGap (c : Char) : Bool := c = ' ' || c = '\t'

theorem eq_of_isGap {c : Char} (h : isGap c = true) : c = ' ' ∨ c = '\t' := by
  simpa [isGap] using h

theorem exists_trimmed (h : url? line = some url) :
    ∃ name spaces gap, Unicode.trim line = '[' :: '!' :: (name ++ spaces ++ gap :: (url ++ [']'])) ∧
      Ascii.equalsIgnoringCase name "video".toList = true ∧ (∀ c ∈ spaces, isGap c = true) ∧
      isGap gap = true := by
  rw [url?] at h
  split at h
  · next text htrimmed =>
      dsimp only at h
      split at h
      · next his =>
          simp only [Bool.and_eq_true, decide_eq_true_eq, Bool.not_eq_true'] at his
          obtain ⟨⟨⟨⟨hnamed, hspaced⟩, hclosed⟩, -⟩, -⟩ := his
          obtain ⟨address, hclosed⟩ := List.getLast?_eq_some_iff.mp hclosed
          rw [hclosed, List.dropLast_concat, Option.some_inj] at h
          subst h
          obtain ⟨spaces, gap, hends⟩ := (List.eq_nil_or_concat _).resolve_left
            (List.isEmpty_eq_false_iff.mp hspaced)
          have hgaps : ∀ c ∈ spaces.concat gap, isGap c = true := fun c hmem =>
            List.mem_takeWhile_imp (hends ▸ hmem)
          have hparts : text = text.take 5 ++ (spaces.concat gap ++ (address ++ [']'])) := by
            rw [← hclosed, ← hends, Text.drop_length_takeWhile, List.takeWhile_append_dropWhile,
              List.take_append_drop]
          rw [List.concat_eq_append] at hgaps hparts
          rw [List.append_assoc, List.singleton_append, ← List.append_assoc] at hparts
          exact ⟨text.take 5, spaces, gap, hparts ▸ htrimmed, hnamed,
            fun c hmem => hgaps c (List.mem_append_left _ hmem), hgaps gap (by simp)⟩
      · cases h
  · cases h

theorem exists_address (h : url? line = some url) :
    ∃ front gap behind, line = front ++ gap :: (url ++ ']' :: behind) ∧
      '@' ∉ front ∧ isGap gap = true ∧ '@' ∉ behind := by
  obtain ⟨name, spaces, gap, htrimmed, hnamed, hgaps, hgap⟩ := exists_trimmed h
  obtain ⟨before, behind, hwhole, hspaceBefore, hspaceBehind⟩ :=
    Text.exists_trimBoth Unicode.isWhitespace line
  refine ⟨before ++ '[' :: '!' :: (name ++ spaces), gap, behind, ?_, ?_, hgap,
    not_mem_whitespace hspaceBehind⟩
  · rw [hwhole, show Text.trimBoth Unicode.isWhitespace line = _ from htrimmed]
    simp
  · have hinSpaces : '@' ∉ spaces := fun hmem => Bool.false_ne_true (hgaps '@' hmem)
    simp [not_mem_whitespace hspaceBefore, not_mem_of_equalsIgnoringCase hnamed, hinSpaces]

theorem exists_opens_iff (h : url? line = some url) :
    (∃ position, Opens none line position) ↔ ∃ position, Opens none url position := by
  obtain ⟨front, gap, behind, rfl, hnoneInFront, hgap, hnoneBehind⟩ := exists_address h
  have hopen : XrefShortcut.Allows (some gap) := by
    rcases eq_of_isGap hgap with rfl | rfl <;> exact XrefShortcut.any_blocks_eq_false.mp rfl
  have hwhole : front ++ gap :: (url ++ ']' :: behind) =
      (front ++ [gap]) ++ (url ++ ']' :: behind) := by simp
  have hbracket : Ascii.isLetter ']' = false := by decide
  have hnoSign : '@' ∉ front ++ [gap] := by
    rcases eq_of_isGap hgap with rfl | rfl <;> simp [hnoneInFront]
  rw [hwhole]
  constructor
  · rintro ⟨position, hopens⟩
    obtain ⟨place, rfl⟩ := Nat.exists_eq_add_of_le (hopens.length_le hnoSign)
    rw [opens_append, List.getLast?_concat, Option.some_or, opens_front hopen] at hopens
    have hinside := hopens.lt_length (by simp [hnoneBehind])
    exact ⟨place, (opens_behind hbracket hinside).mp hopens⟩
  · rintro ⟨place, hopens⟩
    refine ⟨(front ++ [gap]).length + place, ?_⟩
    obtain ⟨hinside, -⟩ := List.getElem?_eq_some_iff.mp hopens.sign
    rw [opens_append, List.getLast?_concat, Option.some_or, opens_front hopen]
    exact (opens_behind hbracket hinside).mpr hopens

def joinLines (lines : List (List Inline)) : List Inline :=
  [.leaf .softBreak].intercalate lines

theorem joinLines_cons_cons (line next : List Inline) (rest : List (List Inline)) :
    joinLines (line :: next :: rest) = line ++ .leaf .softBreak :: joinLines (next :: rest) := by
  rw [joinLines, List.intercalate_cons_cons, List.append_assoc]
  rfl

theorem splitAll_joinLines (lines : List (List Inline)) :
    XrefShortcut.splitAll (joinLines lines) = joinLines (lines.map XrefShortcut.splitAll) := by
  induction lines with
  | nil => rfl
  | cons line rest ih =>
      cases rest with
      | nil => simp [joinLines]
      | cons next rest =>
          rw [joinLines_cons_cons, List.map_cons, List.map_cons, joinLines_cons_cons,
            ← List.map_cons, ← ih, XrefShortcut.splitAll, List.flatMap_append, List.flatMap_cons]
          rfl

theorem markFrom_append (kept line rest : List Inline) (hsolid : .leaf .softBreak ∉ line) :
    markFrom kept (line ++ rest) = markFrom (line.reverse ++ kept) rest := by
  induction line generalizing kept with
  | nil => rfl
  | cons node line ih =>
      rw [List.mem_cons, not_or] at hsolid
      rw [List.cons_append, markFrom, ih _ hsolid.2]
      · simp
      · rintro rfl
        exact hsolid.1 rfl

theorem mark_joinLines {lines : List (List Inline)}
    (hsolid : ∀ line ∈ lines, .leaf .softBreak ∉ line) :
    mark (joinLines lines) = joinLines (lines.map fun line => markLine line.reverse) := by
  induction lines with
  | nil => rfl
  | cons line rest ih =>
      rw [List.forall_mem_cons] at hsolid
      have hfirst (behind : List Inline) :
          markFrom [] (line ++ behind) = markFrom line.reverse behind := by
        rw [markFrom_append [] line behind hsolid.1, List.append_nil]
      cases rest with
      | nil =>
          have hlast := hfirst []
          rw [List.append_nil, markFrom] at hlast
          simpa [joinLines, mark] using hlast
      | cons next rest =>
          have hbehind := ih hsolid.2
          rw [List.map_cons] at hbehind
          rw [joinLines_cons_cons, List.map_cons, List.map_cons, joinLines_cons_cons, ← hbehind,
            mark, hfirst]
          rfl

theorem markLine_of_ne {line : List Inline} (h : ∀ text, line ≠ [.leaf (.text text)]) :
    markLine line = line.reverse := by
  rw [markLine]
  exact fun text hsingle => h text hsingle

/-- What a line of text becomes in a quoted paragraph. -/
inductive QuotedLine : Text → List Inline → Prop
  | video {line url : Text} : url? line = some url → (∀ position, ¬Opens none url position) →
      QuotedLine line [.leaf (.video url)]
  | kept {line : Text} :
      (∀ url, url? line = some url → ∃ position, Opens none url position) →
      QuotedLine line ((XrefShortcut.split line).map .leaf)

theorem quotedLine (line : Text) :
    QuotedLine line (markLine ((XrefShortcut.split line).map .leaf).reverse) := by
  by_cases hopens : ∃ position, Opens none line position
  · have hseveral (text : Text) :
        ((XrefShortcut.split line).map Inline.leaf).reverse ≠ [.leaf (.text text)] := by
      obtain ⟨position, hopens⟩ := hopens
      intro hsingle
      have hleaves : XrefShortcut.split line = [.text text] := by
        simpa [List.map_eq_singleton_iff] using hsingle
      exact XrefShortcut.split_ne_of_opens hopens hleaves
    rw [markLine_of_ne hseveral, List.reverse_reverse]
    exact .kept fun url hfound => (exists_opens_iff hfound).mp hopens
  · have hsingle := XrefShortcut.split_of_free (not_exists.mp hopens)
    have hkept := @QuotedLine.kept line
    rw [hsingle] at hkept ⊢
    change QuotedLine line (markLine [.leaf (.text line)])
    rw [markLine]
    cases hfound : url? line with
    | none => exact hkept (by simp [hfound])
    | some url =>
        refine .video hfound (not_exists.mp fun hinside => ?_)
        exact hopens ((exists_opens_iff hfound).mpr hinside)

theorem inlines_leaves (leaves : List Leaf) :
    Printer.inlines (leaves.map .leaf) = leaves.flatMap Printer.leaf := by
  induction leaves with
  | nil => rfl
  | cons leaf rest ih =>
      rw [List.map_cons, Printer.inlines, ih]
      rfl

theorem QuotedLine.printed {content : List Inline} (h : QuotedLine line content) :
    Printer.inlines content = line ∨
      ∃ url, url? line = some url ∧ content = [.leaf (.video url)] := by
  cases h with
  | video hfound _ => exact .inr ⟨_, hfound, rfl⟩
  | kept _ => exact .inl ((inlines_leaves _).trans (scanned_split line).printed)

/-- Each line of text in a quoted paragraph is marked by itself, and keeps its soft breaks. -/
theorem mark_lines (lines : List Text) :
    ∃ parts, mark (XrefShortcut.splitAll (joinLines (lines.map fun line => [.leaf (.text line)]))) =
        joinLines parts ∧
      List.Forall₂ QuotedLine lines parts := by
  have hsingle (line : Text) : XrefShortcut.splitAll [.leaf (.text line)] =
      (XrefShortcut.split line).map .leaf := List.append_nil _
  have hsolid (line : Text) : .leaf .softBreak ∉ (XrefShortcut.split line).map Inline.leaf := by
    intro hmem
    obtain ⟨leaf, hmem, hsame⟩ := List.mem_map.mp hmem
    cases hsame
    exact (scanned_split line).fresh _ hmem
  refine ⟨lines.map fun line => markLine ((XrefShortcut.split line).map .leaf).reverse, ?_, ?_⟩
  · rw [splitAll_joinLines, mark_joinLines]
    · simp only [List.map_map, Function.comp_def, hsingle]
    · simp only [List.map_map, Function.comp_def, hsingle, List.forall_mem_map]
      exact fun line _ => hsolid line
  · rw [List.forall₂_map_right_iff, List.forall₂_same]
    exact fun line _ => quotedLine line

/-- A reference in the address of a directive keeps the line from becoming a video. -/
example :
    mark (XrefShortcut.splitAll [.leaf (.text "[!VIDEO x/@a]".toList)]) =
      [.leaf (.text "[!VIDEO x/".toList), .leaf (.xref "a".toList false),
        .leaf (.text "]".toList)] := by
  rfl

end VideoDirective

theorem Builder.paragraph_lines {builder : Builder} (hquoted : 0 < builder.quoteDepth)
    (lines : List Text) :
    ∃ parts, builder.paragraph (XrefShortcut.splitAll
        (VideoDirective.joinLines (lines.map fun line => [.leaf (.text line)]))) =
          .paragraph (VideoDirective.joinLines parts) ∧
      List.Forall₂ VideoDirective.QuotedLine lines parts := by
  obtain ⟨parts, hmarked, hbecome⟩ := VideoDirective.mark_lines lines
  refine ⟨parts, ?_, hbecome⟩
  rw [paragraph, if_pos hquoted, hmarked]

end Canonmark
