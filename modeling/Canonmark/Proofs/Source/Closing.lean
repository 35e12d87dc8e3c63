import Canonmark.Proofs.Source.Onward
import Canonmark.Source.Inline

/-!
# The last character of a link or a tag

Inline HTML and autolinks end with an angle bracket, the tail of a link with a parenthesis. A run
of delimiters holds neither, so that none of them ends inside of one.
-/

namespace Canonmark.Source

def Reading.Leads (first second : Reading) : Prop :=
  Onward first.length first.rest second.length second.rest

namespace Tag

variable {breaks : LineBreaks} {reading result : Reading}

theorem leads_keep (reading : Reading) (n : Nat) : reading.Leads (reading.keep n) := ⟨n, rfl, rfl⟩

theorem leads_lineBreak? {n : Nat} (h : lineBreak? breaks n reading = some result) :
    reading.Leads result := by
  obtain ⟨markers, -, rfl⟩ := Option.map_eq_some_iff.mp h
  exact (leads_keep reading n).trans ⟨_, rfl, rfl⟩

theorem leads_spaces? {fuel : Nat} (h : spaces? breaks fuel reading = some result) :
    reading.Leads result := by
  induction fuel generalizing reading with
  | zero =>
      cases h
      exact Onward.refl _ _
  | succ fuel ih =>
      have hkept := leads_keep reading (countWhile Ascii.isBlank reading.rest)
      rw [spaces?] at h
      split at h
      · cases h
        exact hkept
      · cases h
        exact hkept
      · obtain ⟨next, hbroken, hlater⟩ := Option.bind_eq_some_iff.mp h
        exact (hkept.trans (leads_lineBreak? hbroken)).trans (ih hlater)

theorem leads_quotedValue? {quote : Char} {fuel : Nat}
    (h : quotedValue? breaks quote fuel reading = some result) : reading.Leads result := by
  induction fuel generalizing reading with
  | zero => cases h
  | succ fuel ih =>
      rw [quotedValue?] at h
      split at h
      · cases h
      split at h
      · cases h
        exact leads_keep reading 1
      split at h
      · obtain ⟨next, hbroken, hlater⟩ := Option.bind_eq_some_iff.mp h
        exact (leads_lineBreak? hbroken).trans (ih hlater)
      · exact (leads_keep reading 1).trans (ih h)

theorem leads_value? {fuel : Nat} (h : value? breaks fuel reading = some result) :
    reading.Leads result := by
  rw [value?] at h
  split at h
  · cases h
  split at h
  · exact (leads_keep reading 1).trans (leads_quotedValue? h)
  split at h
  · cases h
    exact leads_keep reading _
  · cases h

theorem leads_attribute? {fuel : Nat} (h : attribute? breaks fuel reading = some result) :
    reading.Leads result := by
  rw [attribute?] at h
  split at h
  · cases h
  split at h
  · have hnamed : reading.Leads ((reading.keep 1).keepWhile isNameChar) :=
      (leads_keep reading 1).trans (leads_keep _ _)
    simp only at h
    split at h
    · cases h
    · next spaced hgap =>
        split at h
        · obtain ⟨next, hbehind, hvalue⟩ := Option.bind_eq_some_iff.mp h
          exact (((hnamed.trans (leads_spaces? hgap)).trans (leads_keep spaced 1)).trans
            (leads_spaces? hbehind)).trans (leads_value? hvalue)
        · cases h
          exact hnamed
  · cases h

theorem leads_attributes? {all fuel : Nat} (h : attributes? breaks all fuel reading = some result) :
    reading.Leads result := by
  induction fuel generalizing reading with
  | zero => cases h
  | succ fuel ih =>
      rw [attributes?] at h
      split at h
      · cases h
      next spaced hgap =>
      have hahead := leads_spaces? hgap
      split at h
      · cases h
      split at h
      · cases h
        exact hahead
      split at h
      · cases h
      · obtain ⟨next, hfound, hlater⟩ := Option.bind_eq_some_iff.mp h
        exact (hahead.trans (leads_attribute? hfound)).trans (ih hlater)

theorem exists_read? {text : Text} (h : read? breaks text = some result) :
    ∃ n, result.length = n + 1 ∧ text[n]? = some '>' := by
  have hcloses {reading : Reading} (hahead : (Reading.start text).Leads reading)
      (h : close? reading = some result) : ∃ n, result.length = n + 1 ∧ text[n]? = some '>' := by
    obtain ⟨n, hlength, hrest⟩ := hahead
    rw [close?] at h
    split at h
    · next behind hbracket =>
        cases h
        refine ⟨reading.length, rfl, ?_⟩
        rw [hrest] at hbracket
        have hfirst := congrArg (·[0]?) hbracket
        simpa [hlength, Reading.start] using hfirst
    · cases h
  unfold read? at h
  extract_lets fuel closing reading name named at h
  have hopened : (Reading.start text).Leads reading := leads_keep _ _
  have hahead : (Reading.start text).Leads named :=
    (hopened.trans (leads_keep reading name)).trans (leads_keep _ _)
  split at h
  · cases h
  split at h
  · exact hcloses (hahead.trans (leads_keep named _)) h
  · obtain ⟨found, hattributes, hclosed⟩ := Option.bind_eq_some_iff.mp h
    exact hcloses ((hahead.trans (leads_attributes? hattributes)).trans (leads_keep found _))
      hclosed

end Tag

namespace Markup

theorem exists_through? {mark text : Text} (hclosing : mark.getLast? = some '>') {n : Nat}
    (h : through? mark text = some n) : ∃ k, n = k + 1 ∧ text[k]? = some '>' := by
  obtain ⟨body, rfl⟩ := List.getLast?_eq_some_iff.mp hclosing
  induction text generalizing n with
  | nil => cases h
  | cons c rest ih =>
      rw [through?] at h
      split at h
      · next hfound =>
          cases h
          obtain ⟨behind, hwhole⟩ := List.isPrefixOf_iff_prefix.mp hfound
          refine ⟨body.length, by simp, ?_⟩
          rw [← hwhole, List.append_assoc, List.getElem?_append_right (Nat.le_refl _)]
          simp
      · obtain ⟨m, hfound, rfl⟩ := Option.map_eq_some_iff.mp h
        obtain ⟨k, rfl, hlast⟩ := ih hfound
        exact ⟨k + 1, rfl, hlast⟩

theorem exists_comment? {text : Text} {n : Nat} (h : comment? text = some n) :
    ∃ k, n = k + 1 ∧ text[k]? = some '>' := by
  rw [comment?] at h
  split at h
  · next hfound =>
      cases h
      obtain ⟨behind, rfl⟩ := List.isPrefixOf_iff_prefix.mp hfound
      exact ⟨0, rfl, rfl⟩
  split at h
  · next hfound =>
      cases h
      obtain ⟨behind, rfl⟩ := List.isPrefixOf_iff_prefix.mp hfound
      exact ⟨1, rfl, rfl⟩
  · exact exists_through? rfl h

theorem exists_cdata? {text : Text} {n : Nat} (h : cdata? text = some n) :
    ∃ k, n = k + 1 ∧ text[k]? = some '>' := by
  rw [cdata?] at h
  split at h
  · cases h
  split at h
  · next behind hfound =>
      cases h
      refine ⟨_, rfl, ?_⟩
      have hfirst := congrArg (·[0]?) hfound
      simpa using hfirst
  · cases h

theorem exists_declaration? {text : Text} {n : Nat} (h : declaration? text = some n) :
    ∃ k, n = k + 1 ∧ text[k]? = some '>' := by
  rw [declaration?.eq_def] at h
  split at h
  · obtain ⟨m, hfound, rfl⟩ := Option.map_eq_some_iff.mp h
    obtain ⟨k, rfl, hlast⟩ := exists_comment? hfound
    exact ⟨k + 2, rfl, hlast⟩
  · split at h
    · obtain ⟨m, hfound, rfl⟩ := Option.map_eq_some_iff.mp h
      obtain ⟨k, rfl, hlast⟩ := exists_cdata? hfound
      refine ⟨k + 7, rfl, ?_⟩
      rwa [List.getElem?_drop, Nat.add_comm] at hlast
    split at h
    · obtain ⟨m, hfound, rfl⟩ := Option.map_eq_some_iff.mp h
      obtain ⟨k, rfl, hlast⟩ := exists_through? rfl hfound
      exact ⟨k + 1, rfl, hlast⟩
    · cases h
  · cases h

end Markup

theorem exists_inlineHtml? {markers : Text → Nat} {text : Text} {n : Nat} {cut : Option Text}
    (h : inlineHtml? markers text = some (n, cut)) : ∃ k, n = k + 1 ∧ text[k]? = some '>' := by
  rw [inlineHtml?.eq_def] at h
  split at h
  · obtain ⟨m, hfound, hsame⟩ := Option.map_eq_some_iff.mp h
    cases hsame
    obtain ⟨k, rfl, hlast⟩ := Markup.exists_declaration? hfound
    exact ⟨k + 1, rfl, hlast⟩
  · obtain ⟨m, hfound, hsame⟩ := Option.map_eq_some_iff.mp h
    cases hsame
    obtain ⟨k, rfl, hlast⟩ := Markup.exists_through? rfl hfound
    exact ⟨k + 1, rfl, hlast⟩
  · obtain ⟨reading, hfound, hsame⟩ := Option.map_eq_some_iff.mp h
    cases hsame
    exact Tag.exists_read? hfound

/-! ## Autolinks -/

theorem eq_takeWhile_append {p : Char → Bool} {text behind : Text}
    (h : text.drop (text.takeWhile p).length = behind) : text = text.takeWhile p ++ behind := by
  rw [← h, Text.drop_length_takeWhile, List.takeWhile_append_dropWhile]

theorem Autolink.closing_uri? {text uri : Text} (h : uri? text = some uri) :
    text[uri.length]? = some '>' := by
  rw [uri?.eq_def] at h
  split at h
  · cases h
  next c rest =>
  split at h
  · cases h
  extract_lets scheme at h
  split at h
  · next tail hcolon =>
      split at h
      · extract_lets path at h
        split at h
        · next behind hbracket =>
            cases h
            have hwhole : c :: rest = (c :: scheme ++ ':' :: path) ++ '>' :: behind := by
              conv_lhs => rw [eq_takeWhile_append hcolon, eq_takeWhile_append hbracket]
              simp [scheme, path]
            rw [hwhole, List.getElem?_append_right (Nat.le_refl _), Nat.sub_self]
            rfl
        · cases h
      · cases h
  · cases h

theorem Autolink.closing_address? {text address : Text} (h : address? text = some address) :
    text[address.length]? = some '>' := by
  unfold address? at h
  extract_lets localPart at h
  split at h
  · cases h
  split at h
  · next rest hfound =>
      split at h
      · cases h
      next n hdomain =>
      split at h
      · next behind hclosed =>
          cases h
          have hwithin : n < rest.length := by
            have := congrArg List.length hclosed
            simp only [List.length_drop, List.length_cons] at this
            omega
          have hwhole : text = localPart ++ '@' :: rest := eq_takeWhile_append hfound
          have hlast : rest[n]? = some '>' := by
            have := congrArg (·[0]?) hclosed
            simpa using this
          have hsize :
              (text.take (localPart.length + 1 + n)).length = localPart.length + 1 + n := by
            rw [List.length_take, hwhole]
            simp only [List.length_append, List.length_cons]
            omega
          rw [hsize, hwhole, Nat.add_assoc, List.getElem?_append_right (Nat.le_add_right _ _),
            Nat.add_sub_cancel_left, Nat.add_comm 1 n]
          exact hlast
      · cases h
  · cases h

/-! ## Ends -/

/-- The text of a block is part of the source, from its base on. -/
def InlineContext.Within (source : Text) (context : InlineContext) : Prop :=
  ∀ i c, context.text[i]? = some c → source[context.base + i]? = some c

theorem InlineContext.Within.getElem? {source : Text} {context : InlineContext}
    (h : context.Within source) {position i : Nat} {c : Char} (hle : context.base ≤ position)
    (hhere : (context.textAt position)[i]? = some c) : source[position + i]? = some c := by
  rw [textAt, List.getElem?_drop] at hhere
  have := h _ c hhere
  rwa [← Nat.add_assoc, Nat.add_sub_cancel' hle] at this

theorem InlineContext.Within.isPrefix {source : Text} {context : InlineContext}
    (h : context.Within source) {position : Nat} (hle : context.base ≤ position) :
    context.textAt position <+: source.drop position := by
  refine List.prefix_iff_getElem?.mpr fun i hinside => ?_
  rw [List.getElem?_drop]
  exact h.getElem? hle (List.getElem?_eq_getElem hinside)

theorem InlineContext.textAt_add {context : InlineContext} {position : Nat}
    (hinside : context.base ≤ position) (n : Nat) :
    context.textAt (position + n) = (context.textAt position).drop n := by
  simp only [textAt, List.drop_drop]
  congr 1
  omega

def ClosesAt (source : Text) (stop : Nat) : Prop :=
  ∃ last, stop = last + 1 ∧ (source[last]? = some ')' ∨ source[last]? = some '>')

theorem closesAt_angle? {source : Text} {context : InlineContext} (hwithin : context.Within source)
    {span next : Span} (hle : context.base ≤ next.start) {node : InlineNode} {stop : Nat}
    (h : angle? context span next = some (node, stop)) : ClosesAt source stop := by
  unfold angle? at h
  extract_lets text link at h
  split at h
  · next uri hfound =>
      cases h
      exact ⟨_, rfl, .inr (hwithin.getElem? hle (Autolink.closing_uri? hfound))⟩
  split at h
  · next address hfound =>
      cases h
      exact ⟨_, rfl, .inr (hwithin.getElem? hle (Autolink.closing_address? hfound))⟩
  · obtain ⟨⟨n, cut⟩, hfound, hsame⟩ := Option.map_eq_some_iff.mp h
    cases hsame
    obtain ⟨k, rfl, hlast⟩ := exists_inlineHtml? hfound
    exact ⟨_, rfl, .inr (hwithin.getElem? hle hlast)⟩

namespace LinkTail

theorem lt_titleStep (context : InlineContext) (tokens : List Token) (kept : Text)
    (position : Nat) (c : Char) (rest : Text) :
    position < (titleStep context tokens kept position c rest).2.1 := by
  unfold titleStep
  extract_lets plain
  split_ifs
  · split
    · split_ifs with hlater
      · exact hlater
      · exact Nat.lt_succ_self _
    · exact Nat.lt_succ_self _
  · split
    · simp only
      omega
    · exact Nat.lt_succ_self _
  · split
    · split_ifs
      · simp only
        omega
      · exact Nat.lt_succ_self _
    · exact Nat.lt_succ_self _
  · exact Nat.lt_succ_self _

theorem lt_titleFrom? {context : InlineContext} {tokens : List Token} {start close : Char}
    {fuel : Nat} {kept : Text} {position : Nat} {text title : Text} {stop : Nat}
    (h : titleFrom? context tokens start close fuel kept position text = some (title, stop)) :
    position < stop := by
  induction fuel generalizing kept position text with
  | zero => cases h
  | succ fuel ih =>
      rw [titleFrom?.eq_def] at h
      simp only at h
      split at h
      · cases h
      split at h
      · cases h
        exact Nat.lt_succ_self _
      split at h
      · cases h
      · exact Nat.lt_trans (lt_titleStep _ _ _ _ _ _) (ih h)

theorem lt_title? {context : InlineContext} {tokens : List Token} {position : Nat}
    {text title : Text} {stop : Nat}
    (h : title? context tokens position text = some (title, stop)) : position < stop := by
  rw [title?.eq_def] at h
  split at h
  · cases h
  split at h
  · exact Nat.lt_trans (Nat.lt_succ_self _) (lt_titleFrom? h)
  · cases h

/-- The parts that a tail is read in: a destination, a title or none, and a parenthesis. -/
theorem read?_parts {context : InlineContext} {tokens : List Token} {position stop : Nat}
    {destination title : Text}
    (h : read? context tokens position = some (destination, title, stop)) :
    ∃ inner written size last rest,
      context.textAt position = '(' :: inner ∧
      Destination.scan? maxNesting (context.textAt (position + 1 + space context inner))
        = some (written, size) ∧
      destination = Escape.resolve written ∧
      (let behind := position + 1 + space context inner + size
       let gap := behind + space context (context.textAt behind)
       title? context tokens gap (context.textAt gap) = none ∧ title = [] ∧ last = gap ∨
         ∃ ends, title? context tokens gap (context.textAt gap) = some (title, ends) ∧
           last = ends + space context (context.textAt ends)) ∧
      context.textAt last = ')' :: rest ∧ stop = last + 1 := by
  unfold read? at h
  split at h
  · next inner hopening =>
      extract_lets start at h
      obtain ⟨⟨written, size⟩, hscanned, h⟩ := Option.bind_eq_some_iff.mp h
      simp only at h
      cases hfound : title? context tokens (start + size + space context
          (context.textAt (start + size))) (context.textAt (start + size + space context
          (context.textAt (start + size)))) with
      | none =>
          simp only [hfound] at h
          split at h
          · next hclosing =>
              cases h
              exact ⟨inner, written, size, _, _, hopening, hscanned, rfl, .inl ⟨hfound, rfl, rfl⟩,
                hclosing, rfl⟩
          · cases h
      | some read =>
          simp only [hfound] at h
          split at h
          · next hclosing =>
              cases h
              exact ⟨inner, written, size, _, _, hopening, hscanned, rfl,
                .inr ⟨read.2, hfound, rfl⟩, hclosing, rfl⟩
          · cases h
  · cases h

theorem read?_split {context : InlineContext} {tokens : List Token} {position stop : Nat}
    {destination title : Text} (hle : context.base ≤ position)
    (h : read? context tokens position = some (destination, title, stop)) :
    ∃ inner behind, context.textAt position = '(' :: (inner ++ ')' :: behind) ∧
      stop = position + inner.length + 2 := by
  obtain ⟨inner, written, size, last, rest, hopening, -, -, htitled, hclosing, rfl⟩ := read?_parts h
  have hlater : position < last := by
    rcases htitled with ⟨-, -, rfl⟩ | ⟨ends, hfound, rfl⟩
    · omega
    · have := lt_title? hfound
      omega
  obtain ⟨n, rfl⟩ : ∃ n, last = position + (n + 1) := ⟨last - position - 1, by omega⟩
  have hsplit : inner.drop n = ')' :: rest := by
    rw [← hclosing, InlineContext.textAt_add hle, hopening, List.drop_succ_cons]
  have hshort : n < inner.length := by
    have hfilled := congrArg List.length hsplit
    simp only [List.length_drop, List.length_cons] at hfilled
    omega
  refine ⟨inner.take n, rest, ?_, ?_⟩
  · rw [hopening, ← hsplit, List.take_append_drop]
  · rw [List.length_take_of_le (Nat.le_of_lt hshort)]
    omega

theorem closesAt_read? {source : Text} {context : InlineContext} (hwithin : context.Within source)
    {tokens : List Token} {position : Nat} (hle : context.base ≤ position)
    {destination title : Text} {stop : Nat}
    (h : read? context tokens position = some (destination, title, stop)) :
    ClosesAt source stop := by
  obtain ⟨inner, behind, htext, rfl⟩ := read?_split hle h
  refine ⟨_, rfl, .inl ?_⟩
  refine hwithin.getElem? (i := inner.length + 1) hle ?_
  rw [htext]
  simp

end LinkTail

end Canonmark.Source
