import Canonmark.Canonical.Source
import Canonmark.Proofs.Text.Split
import Mathlib.Data.List.Chain

/-!
# Line ends

A line may end with a line feed, with a carriage return, or with a carriage return and a line feed.
Line feeds take the place of the others in two replacements, and what is left of a text is its
lines, each with a line feed. So the ends do not matter to what is read and printed. One end takes
two characters, which is why a carriage return must not meet the line feed of an empty line.
-/

namespace Canonmark

inductive LineEnd where
  | feed
  | carriage
  | carriageFeed
  deriving DecidableEq, Inhabited, Repr

def LineEnd.text : LineEnd → Text
  | .feed => ['\n']
  | .carriage => ['\r']
  | .carriageFeed => ['\r', '\n']

structure EndedLine where
  text : Text
  ending : LineEnd
  noCarriage : '\r' ∉ text := by decide
  noFeed : '\n' ∉ text := by decide

namespace EndedLine

def written (line : EndedLine) : Text := line.text ++ line.ending.text

def writtenAll (lines : List EndedLine) : Text := lines.flatMap written

def endedBy (ending : LineEnd) (line : EndedLine) : EndedLine := { line with ending := ending }

/-- The end of a line and the next line are not one end of two characters. -/
def Parted (line next : EndedLine) : Prop :=
  ¬ (line.ending = .carriage ∧ next.text = [] ∧ next.ending = .feed)

instance (line next : EndedLine) : Decidable (Parted line next) :=
  inferInstanceAs (Decidable (¬ _))

theorem writtenAll_cons (line : EndedLine) (lines : List EndedLine) :
    writtenAll (line :: lines) = line.text ++ (line.ending.text ++ writtenAll lines) := by
  rw [writtenAll, List.flatMap_cons, written, List.append_assoc]
  rfl

theorem head?_writtenAll {line : EndedLine} {lines : List EndedLine}
    (hparted : (line :: lines).IsChain Parted) (hcarriage : line.ending = .carriage) :
    (writtenAll lines).head? ≠ some '\n' := by
  cases lines with
  | nil => simp [writtenAll]
  | cons next rest =>
      have hapart : Parted line next := (List.isChain_cons_cons.mp hparted).1
      rw [writtenAll_cons]
      obtain ⟨text, ending, hnoCarriage, hnoFeed⟩ := next
      cases text with
      | nil =>
          cases ending with
          | feed => exact absurd ⟨hcarriage, rfl, rfl⟩ hapart
          | carriage => simp [LineEnd.text]
          | carriageFeed => simp [LineEnd.text]
      | cons c text =>
          have hother : '\n' ≠ c := fun hsame => hnoFeed (hsame ▸ List.mem_cons_self)
          simpa using Ne.symm hother

end EndedLine

namespace Text

def feedPairs : Text → Text
  | [] => []
  | '\r' :: '\n' :: rest => '\n' :: feedPairs rest
  | c :: rest => c :: feedPairs rest

def feedCarriages (text : Text) : Text := text.map fun c => if c = '\r' then '\n' else c

/-- Line ends are made alike by two replacements, the longer end first. -/
theorem normalizeNewlines_eq (text : Text) :
    normalizeNewlines text = feedCarriages (feedPairs text) := by
  fun_induction normalizeNewlines text with
  | case1 => rfl
  | case2 rest ih =>
      rw [ih, feedPairs]
      rfl
  | case3 c rest hsingle ih =>
      rw [feedPairs, ih]
      · rfl
      · exact hsingle

theorem feedPairs_cons {c : Char} {rest : Text}
    (h : c = '\r' → rest.head? ≠ some '\n') : feedPairs (c :: rest) = c :: feedPairs rest := by
  rw [feedPairs]
  rintro behind rfl rfl
  exact h rfl rfl

theorem feedPairs_append {line : Text} (h : '\r' ∉ line) (rest : Text) :
    feedPairs (line ++ rest) = line ++ feedPairs rest := by
  induction line with
  | nil => rfl
  | cons c line ih =>
      simp only [List.mem_cons, not_or] at h
      rw [List.cons_append, feedPairs_cons fun hsame => absurd hsame.symm h.1, ih h.2,
        List.cons_append]

theorem feedCarriages_line {line : Text} (h : '\r' ∉ line) : feedCarriages line = line := by
  refine (List.map_congr_left fun c hmem => ?_).trans (List.map_id line)
  have hother : c ≠ '\r' := fun hsame => h (hsame ▸ hmem)
  exact if_neg hother

end Text

open Text EndedLine

def LineEnd.shortened : LineEnd → LineEnd
  | .carriageFeed => .feed
  | ending => ending

theorem EndedLine.feedPairs_writtenAll {lines : List EndedLine} (hparted : lines.IsChain Parted) :
    feedPairs (writtenAll lines) =
      writtenAll (lines.map fun line => line.endedBy line.ending.shortened) := by
  induction lines with
  | nil => rfl
  | cons line lines ih =>
      have hlater := ih hparted.tail
      rw [List.map_cons, writtenAll_cons, writtenAll_cons, feedPairs_append line.noCarriage,
        ← hlater, endedBy]
      congr 1
      cases hending : line.ending with
      | feed => exact feedPairs_cons nofun
      | carriage => exact feedPairs_cons fun _ => head?_writtenAll hparted hending
      | carriageFeed => rfl

theorem EndedLine.feedCarriages_writtenAll {lines : List EndedLine}
    (hshort : ∀ line ∈ lines, line.ending ≠ .carriageFeed) :
    feedCarriages (writtenAll lines) = writtenAll (lines.map (endedBy .feed)) := by
  induction lines with
  | nil => rfl
  | cons line lines ih =>
      obtain ⟨hfirst, hlater⟩ := List.forall_mem_cons.mp hshort
      rw [List.map_cons, writtenAll_cons, writtenAll_cons, ← ih hlater, feedCarriages,
        List.map_append, List.map_append]
      refine congrArg₂ (· ++ ·) (feedCarriages_line line.noCarriage) (congrArg (· ++ _) ?_)
      cases hending : line.ending with
      | feed => rfl
      | carriage => rfl
      | carriageFeed => exact absurd hending hfirst

theorem EndedLine.normalizeNewlines_writtenAll {lines : List EndedLine}
    (hparted : lines.IsChain Parted) :
    normalizeNewlines (writtenAll lines) = (lines.map (·.text)).flatMap (· ++ ['\n']) := by
  have hshort : ∀ line ∈ lines.map fun line => line.endedBy line.ending.shortened,
      line.ending ≠ .carriageFeed := by
    simp only [List.forall_mem_map, endedBy]
    intro line _
    cases line.ending <;> simp [LineEnd.shortened]
  rw [normalizeNewlines_eq, feedPairs_writtenAll hparted, feedCarriages_writtenAll hshort,
    writtenAll, List.map_map, List.flatMap_map, List.flatMap_map]
  rfl

namespace Canonical

/-- Sources with the same lines are read alike and have the same canonical form, of which the
same is asked, however their lines end. -/
theorem source_endings (settings : Settings) (scope : Scope) {lines others : List EndedLine}
    (hsame : lines.map (·.text) = others.map (·.text)) (hparted : lines.IsChain Parted)
    (hpartedOthers : others.IsChain Parted) :
    read settings (writtenAll lines) = read settings (writtenAll others) ∧
      source settings scope (writtenAll lines) = source settings scope (writtenAll others) := by
  have halike : normalizeNewlines (writtenAll lines) = normalizeNewlines (writtenAll others) := by
    rw [normalizeNewlines_writtenAll hparted, normalizeNewlines_writtenAll hpartedOthers, hsame]
  have hdocument : read settings (writtenAll lines) = read settings (writtenAll others) := by
    rw [read, read, halike]
  refine ⟨hdocument, ?_⟩
  rw [source, source, hdocument]

/-- Two paragraphs around an empty line, which keeps the ends of its neighbours apart. -/
theorem source_endings_paragraphs :
    let lines : List EndedLine :=
      [{ text := ['a'], ending := .carriage }, { text := [], ending := .carriageFeed },
        { text := ['b'], ending := .feed }]
    let others : List EndedLine :=
      [{ text := ['a'], ending := .carriageFeed }, { text := [], ending := .feed },
        { text := ['b'], ending := .carriage }]
    let scope : Scope := ⟨Resolver.empty, "a.md".toList⟩
    lines.map (·.text) = others.map (·.text) ∧ lines.IsChain Parted ∧ others.IsChain Parted ∧
      read {} (writtenAll lines) = read {} (writtenAll others) ∧
      source {} scope (writtenAll lines) = source {} scope (writtenAll others) ∧
      (source {} scope (writtenAll lines)).value = "a\n\nb\n\n".toList := by
  intro lines others scope
  have hsame : lines.map (·.text) = others.map (·.text) := rfl
  have hparted : lines.IsChain Parted := by decide
  have hpartedOthers : others.IsChain Parted := by decide
  obtain ⟨hdocument, hcanonical⟩ := source_endings {} scope hsame hparted hpartedOthers
  exact ⟨hsame, hparted, hpartedOthers, hdocument, hcanonical, by decide +kernel⟩

end Canonical

end Canonmark
