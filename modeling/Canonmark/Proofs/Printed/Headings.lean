import Canonmark.Proofs.Printed.Leaves

/-!
# The text of printed headings

A heading is printed on one line of hashes and text, also where it was underlined in the source.
The text is read back as a whole, unless it ends with hashes behind a space: these are taken for
the end of the heading.
-/

namespace Canonmark.Printed

open Source

variable {extensions : Extensions} {text : Text}

/-- Text that ends with hashes which would end a heading: they stand alone or behind a space. -/
def ClosedByHashes (text : Text) : Prop :=
  ∃ body hashes, text = body ++ hashes ∧ hashes ≠ [] ∧ (∀ c ∈ hashes, c = '#') ∧
    (body = [] ∨ body.getLast? = some ' ')

structure HeadingLine (text : Text) : Prop where
  one : OneLine text
  front : ∃ c ∈ text.head?, Ascii.isBlank c = false
  back : ∃ c ∈ text.getLast?, Ascii.isBlank c = false

theorem exists_hashes (text : Text) :
    ∃ hashes, text = Text.dropEndWhile (· = '#') text ++ hashes ∧ ∀ c ∈ hashes, c = '#' := by
  refine ⟨text.rtakeWhile (· = '#'), List.rdropWhile_append_rtakeWhile.symm, fun c hmem => ?_⟩
  simpa using List.mem_rtakeWhile_imp hmem

theorem HeadingLine.content (h : HeadingLine text) :
    Text.dropEndWhile (fun c => c = '\n' || c = '\r' || c = ' ') (text ++ ['\n']) = text := by
  obtain ⟨c, hlast, hblank⟩ := h.back
  rw [Text.dropEndWhile_concat rfl]
  refine Text.dropEndWhile_of_last fun d hmem => ?_
  obtain rfl : c = d := Option.mem_unique hlast hmem
  have hinside := List.mem_of_getLast? hlast
  have hfeed : c ≠ '\n' := fun hsame => h.one.1 (hsame ▸ hinside)
  have hcarriage : c ≠ '\r' := fun hsame => h.one.2 (hsame ▸ hinside)
  have hspace : c ≠ ' ' := fun hsame => by simp [hsame, Ascii.isBlank] at hblank
  simp [hfeed, hcarriage, hspace]

theorem closedByHashes_iff (text : Text) :
    ClosedByHashes text ↔ Text.dropEndWhile (· = '#') text ≠ text ∧
      (Text.dropEndWhile (· = '#') text = [] ∨
        (Text.dropEndWhile (· = '#') text).getLast? = some ' ') := by
  constructor
  · rintro ⟨body, hashes, rfl, hsome, hall, hending⟩
    have hkept : Text.dropEndWhile (· = '#') (body ++ hashes) = body := by
      rw [Text.dropEndWhile_append body (by simpa using hall)]
      refine Text.dropEndWhile_of_last fun c hlast => ?_
      rcases hending with rfl | hspace
      · cases hlast
      · obtain rfl : ' ' = c := Option.mem_unique hspace hlast
        rfl
    rw [hkept]
    exact ⟨fun hsame => hsome (List.self_eq_append_right.mp hsame), hending⟩
  · rintro ⟨hdiffers, hending⟩
    obtain ⟨hashes, hsplit, hall⟩ := exists_hashes text
    refine ⟨_, hashes, hsplit, ?_, hall, hending⟩
    rintro rfl
    exact hdiffers (hsplit.trans (List.append_nil _)).symm

/-- A heading has the whole of its text, unless hashes end it. -/
theorem headingContent_eq_length_iff (h : HeadingLine text) :
    LeafReader.headingContent (text ++ ['\n']) = text.length ↔ ¬ClosedByHashes text := by
  obtain ⟨c, hlast, hblank⟩ := h.back
  have hfilled : 0 < text.length := List.length_pos_of_mem (List.mem_of_getLast? hlast)
  have hshort := Text.length_dropEndWhile_le (· = '#') text
  rw [closedByHashes_iff]
  simp only [LeafReader.headingContent, h.content]
  generalize Text.dropEndWhile (· = '#') text = body at hshort
  by_cases hnone : body = []
  · have hdiffers : [] ≠ text := fun hsame => by simp [← hsame] at hfilled
    subst hnone
    simp only [List.isEmpty_nil, if_true, true_or, and_true]
    simp [hdiffers, hfilled.ne]
  · have hunspaced : body.getLast? = some ' ' → body ≠ text := by
      rintro hspace rfl
      obtain rfl : ' ' = c := Option.mem_unique hspace hlast
      cases hblank
    simp only [List.isEmpty_iff, hnone, if_false, false_or]
    by_cases hspace : body.getLast? = some ' '
    · have hshorter := Text.dropEndWhile_lt (p := (· = ' ')) hspace rfl
      rw [if_pos hshorter]
      refine iff_of_false (by omega) ?_
      rw [not_not]
      exact ⟨hunspaced hspace, hspace⟩
    · have hkept : Text.dropEndWhile (· = ' ') body = body := by
        refine Text.dropEndWhile_of_last fun d hmem => decide_eq_false ?_
        rintro rfl
        exact hspace hmem
      simp [hkept, hspace]

theorem HeadingLine.inner (h : HeadingLine text) :
    ∀ c ∈ text, SpacedDestination.isInner c = true := by
  intro c hmem
  have hfeed : c ≠ '\n' := fun hsame => h.one.1 (hsame ▸ hmem)
  have hcarriage : c ≠ '\r' := fun hsame => h.one.2 (hsame ▸ hmem)
  simp [SpacedDestination.isInner, hfeed, hcarriage]

theorem HeadingLine.read (h : HeadingLine text) (extensions : Extensions) (position : Nat)
    (tail : Text) :
    (TokenLine.read extensions [] position (text ++ '\n' :: tail)).position
        = position + (text.length + 1) ∧
      (TokenLine.read extensions [] position (text ++ '\n' :: tail)).rest = tail := by
  have hwhole : countWhile SpacedDestination.isInner (text ++ '\n' :: tail) = text.length := by
    rw [countWhile, Text.takeWhile_line rfl, List.takeWhile_eq_self_iff.mpr h.inner]
  obtain ⟨hstop, hrest⟩ := @TokenLine.readFrom_line extensions [] [] position position 0
    (text ++ '\n' :: tail) (Nat.zero_le _)
  rw [hwhole, List.drop_left] at hstop hrest
  exact ⟨hstop.trans (Nat.add_assoc _ _ _), hrest⟩

theorem HeadingLine.blanks (h : HeadingLine text) :
    countWhile Ascii.isBlank (text.reverse ++ []) = 0 := by
  obtain ⟨c, hlast, hblank⟩ := h.back
  obtain ⟨body, rfl⟩ := List.getLast?_eq_some_iff.mp hlast
  simp [countWhile, hblank]

theorem stop_pushText {tokens : List Token} {begun stop : Nat}
    (hreaches : TokenLine.Reaches tokens begun stop) :
    ∀ token ∈ (Token.pushText begun stop tokens).head?, token.span.stop = stop := by
  rcases hreaches with hbefore | ⟨rfl, hends⟩
  · obtain ⟨token, hhead, hends⟩ := TokenLine.head?_pushText hbefore tokens
    intro other hmem
    obtain rfl : token = other := Option.mem_unique hhead hmem
    exact hends
  · unfold Token.pushText
    rw [if_pos (Nat.le_refl _)]
    exact hends

/--
The tokens of a line reach up to its end. They are the same, whatever stands behind the line.
-/
theorem exists_tokens (extensions : Extensions) (h : HeadingLine text) (position : Nat) :
    ∃ tokens, (∀ token ∈ tokens.head?, token.span.stop = position + text.length) ∧
      ∀ tail, tail ≠ [] →
        LeafReader.pushBackslash
          (TokenLine.read extensions [] position (text ++ '\n' :: tail)) = tokens := by
  obtain ⟨tokens, begun, hreaches, hread⟩ := TokenLine.readFrom_end extensions h.inner []
    (.inr ⟨rfl, by simp⟩ : TokenLine.Reaches [] position (position + 0)) (Nat.zero_le _)
  have hfilled : 0 < text.length := by
    obtain ⟨c, hlast, -⟩ := h.back
    exact List.length_pos_of_mem (List.mem_of_getLast? hlast)
  have hmore {tail : Text} (hsome : tail ≠ []) : tail.isEmpty = false := by simpa using hsome
  by_cases hodd : countWhile (· = '\\') (text.reverse ++ []) % 2 = 1
  · refine ⟨Token.pushText (position + text.length - 1) (position + text.length)
      (Token.pushText begun (position + text.length - 1) tokens), ?_, fun tail hsome => ?_⟩
    · exact stop_pushText (.inl (by omega))
    · rw [TokenLine.read, hread tail, TokenLine.finish]
      simp only [eol?, Option.getD_some, List.drop_succ_cons, List.drop_zero, hodd, hmore hsome,
        LeafReader.pushBackslash]
      have hstop : position + text.length - 1 + 1 = position + text.length := by omega
      simp [hstop]
  · refine ⟨Token.pushText begun (position + text.length) tokens, stop_pushText hreaches,
      fun tail hsome => ?_⟩
    rw [TokenLine.read, hread tail, TokenLine.finish]
    simp only [eol?, Option.getD_some, List.drop_succ_cons, List.drop_zero, hodd, hmore hsome,
      LeafReader.pushBackslash, h.blanks]
    simp

theorem endLast_eq {stop : Nat} {tokens : List Token}
    (h : ∀ token ∈ tokens.head?, token.span.stop = stop) :
    LeafReader.endLast stop tokens = tokens := by
  cases tokens with
  | nil => rfl
  | cons token tokens =>
      obtain rfl := h token rfl
      simp only [LeafReader.endLast, Span.upTo_eq]

/-- A printed heading is read with the whole of its text, up to the end of its line. -/
theorem heading_read (h : HeadingLine text) (hopen : ¬ClosedByHashes text) (position level : Nat)
    {tail : Text}
    (hends : ∀ token ∈ (LeafReader.pushBackslash (TokenLine.read extensions []
      (position + level + 1)
      (text ++ '\n' :: tail))).head?, token.span.stop = position + level + 1 + text.length) :
    LeafReader.heading extensions position level
        (List.replicate level '#' ++ ' ' :: (text ++ '\n' :: tail)) =
      ⟨.heading level (LeafReader.pushBackslash
          (TokenLine.read extensions [] (position + level + 1) (text ++ '\n' :: tail))).reverse,
        .upTo position (position + level + 1 + (text.length + 1)),
        position + level + 1 + (text.length + 1), tail⟩ := by
  obtain ⟨c, hfirst, hblank⟩ := h.front
  obtain ⟨rest, rfl⟩ := List.head?_eq_some_iff.mp hfirst
  have hindent : countWhile Ascii.isBlank (' ' :: (c :: rest ++ '\n' :: tail)) = 1 := by
    have hspace : Ascii.isBlank ' ' = true := rfl
    simp [countWhile, hspace, hblank]
  obtain ⟨hstop, hbehind⟩ := h.read extensions (position + level + 1) tail
  have htaken := take_line h.one.1 tail
  rw [lineLength_line h.one.1] at htaken
  have hsize := (headingContent_eq_length_iff h).mpr hopen
  have heol : eol? (' ' :: (c :: rest ++ '\n' :: tail)) = none := rfl
  simp only [LeafReader.heading, drop_hashes, heol, hindent, List.drop_succ_cons, List.drop_zero,
    hstop, hbehind, Nat.add_sub_cancel_left, htaken, hsize, endLast_eq hends]

theorem underline?_head {under : Text} {level n : Nat} (h : underline? under = some (level, n)) :
    ∃ c rest, under = c :: rest ∧ (c = '=' ∨ c = '-') := by
  cases under with
  | nil => cases h
  | cons c rest =>
      simp only [underline?] at h
      obtain ⟨hmark, -⟩ := Option.ite_none_right_eq_some.mp h
      exact ⟨c, rest, rfl, by simpa using hmark⟩

/--
A heading that is underlined in the source is the same heading behind hashes, as far as no hashes
end its text.
-/
theorem heading_underlined (h : HeadingLine text) (hopen : ¬ClosedByHashes text)
    {level n : Nat} {under tail : Text} (hline : underline? under = some (level, n))
    (hsome : tail ≠ []) (position fuel : Nat) :
    (LeafReader.heading extensions position level
        (List.replicate level '#' ++ ' ' :: (text ++ '\n' :: tail))).leaf =
      (LeafReader.paragraphFrom extensions [] (position + level + 1) (fuel + 1) []
        (position + level + 1) (text ++ '\n' :: under)).leaf := by
  obtain ⟨tokens, hends, hread⟩ := exists_tokens extensions h (position + level + 1)
  obtain ⟨c, rest, rfl, hmark⟩ := underline?_head hline
  have hfront :
      (LineHead.start (c :: rest)).takeExactly 4 = (false, LineHead.start (c :: rest)) := by
    rcases hmark with rfl | rfl <;> rfl
  have hwithin : LineHead.within [] (c :: rest) = (true, LineHead.start (c :: rest)) := rfl
  rw [heading_read h hopen position level (by rwa [hread tail hsome]), hread tail hsome,
    LeafReader.paragraphFrom]
  have hfound : underline? (LineHead.start (c :: rest)).rest = some (level, n) := hline
  simp only [(h.read extensions _ _).2, hwithin, hfront, Bool.not_false, Bool.and_self, if_true,
    hfound, hread _ (List.cons_ne_nil c rest)]

end Canonmark.Printed
