import Canonmark.Proofs.Source.Autolinks
import Canonmark.Proofs.Source.SameLine

/-!
# Autolinks that begin a line

At the front of a line an angle bracket may start a block of HTML. It does so in front of no URI,
and in front of an address only if that begins as a comment, a declaration or a processing
instruction does.
-/

namespace Canonmark.Source.Autolink

/-- Characters of a local part, as many as there are, and the separator behind them. -/
inductive Prefixed (separator : Char) : Text → Prop
  | stop (rest : Text) : Prefixed separator (separator :: rest)
  | cons {c : Char} {rest : Text} (hlocal : isLocal c = true)
      (hlater : Prefixed separator rest) : Prefixed separator (c :: rest)

namespace Prefixed

variable {separator : Char} {text : Text}

theorem of_append {front : Text} (hchars : ∀ c ∈ front, isLocal c = true) (behind : Text) :
    Prefixed separator (front ++ separator :: behind) := by
  induction front with
  | nil => exact .stop behind
  | cons c rest ih =>
      obtain ⟨hhere, hlater⟩ := List.forall_mem_cons.mp hchars
      exact .cons hhere (ih hlater)

theorem ne_cons (h : Prefixed separator text) {c : Char} (hother : isLocal c = false)
    (hnotSeparator : c ≠ separator) (rest : Text) : text ≠ c :: rest := by
  rintro rfl
  cases h with
  | stop => exact hnotSeparator rfl
  | cons hlocal => exact absurd hlocal (by simp [hother])

theorem tail {c : Char} {rest : Text} (h : Prefixed separator (c :: rest))
    (hnotSeparator : c ≠ separator) : Prefixed separator rest := by
  cases h with
  | stop => exact absurd rfl hnotSeparator
  | cons _ hlater => exact hlater

theorem drop (h : Prefixed separator text) {n : Nat} (hfree : separator ∉ text.take n) :
    Prefixed separator (text.drop n) := by
  induction h generalizing n with
  | stop rest =>
      cases n with
      | zero => exact .stop rest
      | succ n => exact absurd (by simp) hfree
  | cons hlocal hlater ih =>
      cases n with
      | zero => exact .cons hlocal hlater
      | succ n => exact ih fun hmem => hfree (List.mem_cons_of_mem _ hmem)

theorem drop_countWhile (h : Prefixed separator text) {p : Char → Bool}
    (hstops : p separator = false) : Prefixed separator (text.drop (countWhile p text)) := by
  refine h.drop fun hmem => ?_
  rw [countWhile, ← List.prefix_iff_eq_take.mp (List.takeWhile_prefix p)] at hmem
  exact absurd (List.mem_takeWhile_imp hmem) (by simp [hstops])

/-- No scheme ends in a local part. -/
theorem uri?_none (h : Prefixed '@' text) : uri? text = none := by
  rw [uri?.eq_def]
  split
  · rfl
  next c rest =>
  split
  · rfl
  next hletter =>
  have hnotAt : c ≠ '@' := by
    rintro rfl
    exact hletter (by decide)
  extract_lets scheme
  split
  · next tail hcolon =>
      have hleft := (h.tail hnotAt).drop_countWhile (p := isSchemeChar) (by decide)
      exact absurd hcolon (hleft.ne_cons (by decide) (by decide) tail)
  · rfl

end Prefixed

theorem IsAddress.prefixed {address : Text} (h : IsAddress address) (behind : Text) :
    Prefixed '@' (address ++ behind) := by
  obtain ⟨-, hchars, -⟩ := h
  rw [List.append_assoc]
  exact .of_append hchars _

theorem IsUri.prefixed {uri : Text} (h : IsUri uri) (behind : Text) :
    Prefixed ':' (uri ++ behind) := by
  cases h with
  | @intro first scheme path hletter hchars =>
  have hfront : ∀ c ∈ first :: scheme, isLocal c = true := by
    refine List.forall_mem_cons.mpr ⟨?_, fun c hmem => isLocal_of_isSchemeChar (hchars c hmem)⟩
    simp [isLocal, Ascii.isLetterOrDigit, hletter]
  rw [List.append_assoc]
  exact .of_append hfront _

def IsSeparator (c : Char) : Prop := c = '@' ∨ c = ':'

namespace Prefixed

variable {separator : Char} {text : Text} (hseparator : IsSeparator separator)
include hseparator

theorem not_space {c : Char} {rest : Text} (h : Prefixed separator (c :: rest)) :
    Ascii.isSpace c = false ∧ c ≠ '>' := by
  have hother {d : Char} (hout : isLocal d = false) (hat : d ≠ '@') (hcolon : d ≠ ':') : c ≠ d :=
    fun hsame => h.ne_cons hout (by rcases hseparator with rfl | rfl <;> assumption) rest
      (by rw [hsame])
  refine ⟨?_, hother (by decide) (by decide) (by decide)⟩
  simp only [Ascii.isSpace, Ascii.isBlank, Bool.or_eq_false_iff, decide_eq_false_iff_not]
  refine ⟨⟨⟨⟨⟨?_, ?_⟩, ?_⟩, ?_⟩, ?_⟩, ?_⟩ <;> exact hother (by decide) (by decide) (by decide)

theorem literalEnd?_none (h : Prefixed separator text) : HtmlBlock.literalEnd? text = none := by
  rw [HtmlBlock.literalEnd?, List.findSome?_eq_none_iff]
  intro name hname
  have hfree : separator ∉ name.map Ascii.lower := by
    revert name
    rcases hseparator with rfl | rfl <;> decide
  have hlower : Ascii.lower separator = separator := by rcases hseparator with rfl | rfl <;> decide
  extract_lets ends
  split
  · next hfound =>
      rw [Bool.and_eq_true, Ascii.equalsIgnoringCase, beq_iff_eq] at hfound
      obtain ⟨hsame, hfollows⟩ := hfound
      have hleft : Prefixed separator (text.drop name.length) := h.drop fun hmem =>
        hfree (hsame ▸ hlower ▸ List.mem_map_of_mem hmem)
      simp only [ends] at hfollows
      split at hfollows
      · next hnone =>
          rw [hnone] at hleft
          cases hleft
      · next c rest hstarts =>
          rw [hstarts] at hleft
          simp [hleft.not_space hseparator] at hfollows
  · rfl

theorem startsElement_false (h : Prefixed separator text) :
    HtmlBlock.startsElement text = false := by
  have hnotSlash : '/' ≠ separator := by rcases hseparator with rfl | rfl <;> decide
  unfold HtmlBlock.startsElement
  extract_lets slashless name follows
  have htail : Prefixed separator slashless := by
    simp only [slashless]
    split
    · next hslash =>
        obtain ⟨rest, rfl⟩ := List.head?_eq_some_iff.mp hslash
        exact h.tail hnotSlash
    · exact h
  have hleft : Prefixed separator (slashless.drop name.length) :=
    htail.drop_countWhile (by rcases hseparator with rfl | rfl <;> decide)
  have hbehind : follows = false := by
    simp only [follows]
    split
    · next hnone =>
        rw [hnone] at hleft
        cases hleft
    · next rest hstarts =>
        rw [hstarts] at hleft
        exact absurd rfl ((hleft.tail hnotSlash).not_space hseparator).2
    · next c rest _ hstarts =>
        rw [hstarts] at hleft
        obtain ⟨hspace, hbracket⟩ := hleft.not_space hseparator
        simp only [Ascii.isSpace, Ascii.isBlank, Bool.or_eq_false_iff, decide_eq_false_iff_not]
          at hspace
        simp [hspace, hbracket]
  rw [hbehind, Bool.and_false]

theorem spaces?_eq {reading : Reading} (h : Prefixed separator reading.rest) (fuel : Nat) :
    Tag.spaces? none (fuel + 1) reading = some reading := by
  obtain ⟨text, kept, length⟩ := reading
  cases text with
  | nil => cases h
  | cons c rest =>
      have hspace := (h.not_space hseparator).1
      simp only [Ascii.isSpace, Bool.or_eq_false_iff, decide_eq_false_iff_not] at hspace
      obtain ⟨⟨hblank, hfeed⟩, hcarriage⟩ := hspace
      have hnone : eol? (c :: rest) = none := eol?_cons hfeed hcarriage rest
      have hstays : Reading.keepWhile Ascii.isBlank ⟨c :: rest, kept, length⟩ =
          ⟨c :: rest, kept, length⟩ := by
        rw [Reading.keepWhile, countWhile, List.takeWhile_cons_of_neg (by simp [hblank])]
        rfl
      simp only [Tag.spaces?, hstays, hnone]

theorem close?_none {reading : Reading} (h : Prefixed separator reading.rest) :
    Tag.close? reading = none := by
  rw [Tag.close?]
  split
  · next rest hstarts =>
      rw [hstarts] at h
      exact absurd rfl (h.not_space hseparator).2
  · rfl

theorem keep_slash {reading : Reading} (h : Prefixed separator reading.rest) :
    Prefixed separator
      (reading.keep (if reading.rest.head? = some '/' then 1 else 0)).rest := by
  split
  · next hslash =>
      obtain ⟨rest, hstarts⟩ := List.head?_eq_some_iff.mp hslash
      rw [Reading.keep, hstarts]
      rw [hstarts] at h
      exact h.tail (by rcases hseparator with rfl | rfl <;> decide)
  · exact h

theorem attributes?_none {reading : Reading} (h : Prefixed separator reading.rest)
    (fuel fuel' : Nat) :
    (Tag.attributes? none (fuel + 1) fuel' reading).bind (fun reading =>
      Tag.close? (reading.keep (if reading.rest.head? = some '/' then 1 else 0))) = none := by
  cases fuel' with
  | zero => rfl
  | succ fuel' =>
      rw [Tag.attributes?, h.spaces?_eq hseparator]
      simp only [if_true]
      split
      · rfl
      next c rest hstarts =>
      split
      · exact (h.keep_slash hseparator).close?_none hseparator
      · rfl

theorem read?_none (h : Prefixed separator text) : Tag.read? none text = none := by
  unfold Tag.read?
  extract_lets fuel closing reading name named
  have hopened : Prefixed separator reading.rest := @keep_slash _ hseparator (Reading.start text) h
  have hnamed : Prefixed separator named.rest :=
    (hopened.drop_countWhile (by rcases hseparator with rfl | rfl <;> decide)).drop_countWhile
      (by rcases hseparator with rfl | rfl <;> decide)
  split
  · rfl
  split
  · exact (hnamed.drop_countWhile (by rcases hseparator with rfl | rfl <;> decide)).close?_none
      hseparator
  · exact hnamed.attributes?_none hseparator _ _

theorem end?_eq (h : Prefixed separator text) :
    HtmlBlock.end? text = (HtmlBlock.endMark? text).map .mark := by
  rw [HtmlBlock.end?, HtmlBlock.isLoneTag, h.read?_none hseparator,
    h.startsElement_false hseparator]
  cases HtmlBlock.endMark? text <;> rfl

end Prefixed

def opensMarkup : Text → Bool
  | '?' :: _ => true
  | '!' :: '-' :: '-' :: _ => true
  | '!' :: c :: _ => Ascii.isLetter c
  | _ => false

theorem IsDomain.ne_nil {domain : Text} (h : IsDomain domain) : domain ≠ [] := by
  cases h with
  | label hlabel => exact hlabel.some
  | dot => simp

theorem IsAddress.exists_cons {address : Text} (h : IsAddress address) :
    ∃ c d e rest, address = c :: d :: e :: rest ∧ d ≠ '[' := by
  cases h with
  | @intro localPart domain hsome hchars hdomain =>
  obtain ⟨c, localPart, rfl⟩ := List.exists_cons_of_ne_nil hsome
  obtain ⟨-, hchars⟩ := List.forall_mem_cons.mp hchars
  cases localPart with
  | nil =>
      obtain ⟨e, rest, rfl⟩ := List.exists_cons_of_ne_nil hdomain.ne_nil
      exact ⟨c, '@', e, rest, rfl, by decide⟩
  | cons d localPart =>
      have hnotBracket : d ≠ '[' := by
        rintro rfl
        exact absurd (hchars '[' List.mem_cons_self) (by decide)
      cases localPart with
      | nil => exact ⟨c, d, '@', domain, rfl, hnotBracket⟩
      | cons e localPart => exact ⟨c, d, e, localPart ++ '@' :: domain, rfl, hnotBracket⟩

theorem isSome_endMark?_address {address : Text} (h : IsAddress address) (behind : Text) :
    (HtmlBlock.endMark? (address ++ '>' :: behind)).isSome = opensMarkup address := by
  have hnoLiteral := (h.prefixed ('>' :: behind)).literalEnd?_none (.inl rfl)
  rw [HtmlBlock.endMark?.eq_def, hnoLiteral, Option.none_or]
  obtain ⟨c, d, e, rest, rfl, hnotBracket⟩ := h.exists_cons
  have hnotData :
      "![CDATA[".toList.isPrefixOf (c :: d :: e :: (rest ++ '>' :: behind)) = false := by
    simp [List.isPrefixOf, hnotBracket.symm]
  simp only [List.cons_append]
  split
  · next hstarts =>
      obtain ⟨rfl, rfl, rfl, -⟩ : c = '!' ∧ d = '-' ∧ e = '-' ∧ _ := by simpa using hstarts
      rfl
  · next hstarts =>
      obtain ⟨rfl, -⟩ : c = '?' ∧ _ := by simpa using hstarts
      rfl
  · next letter tail hnoComment hstarts =>
      obtain ⟨rfl, rfl, rfl⟩ : c = '!' ∧ d = letter ∧ tail = e :: (rest ++ '>' :: behind) := by
        simpa [eq_comm] using hstarts
      have hgoesOn : ∀ tail, d = '-' → e :: rest = '-' :: tail → False := fun tail hdash hsame =>
        hnoComment (rest ++ '>' :: behind) hdash (by rw [(List.cons.inj hsame).1])
      rw [if_neg (Bool.eq_false_iff.mp hnotData), opensMarkup]
      · cases Ascii.isLetter d <;> rfl
      · exact hgoesOn
  · next hnoComment hnoInstruction hnoDeclaration =>
      rw [opensMarkup]
      · rfl
      · exact fun tail hsame => hnoInstruction _ (congrArg (· ++ '>' :: behind) hsame)
      · exact fun tail hsame => hnoComment _ (congrArg (· ++ '>' :: behind) hsame)
      · exact fun letter tail hsame => hnoDeclaration _ _ (congrArg (· ++ '>' :: behind) hsame)

/--
An address between brackets starts a block of HTML at the front of a line exactly if it begins as
a comment, a declaration or a processing instruction does.
-/
theorem isSome_end?_address {address : Text} (h : IsAddress address) (behind : Text) :
    (HtmlBlock.end? (address ++ '>' :: behind)).isSome = opensMarkup address := by
  rw [(h.prefixed _).end?_eq (.inl rfl), Option.isSome_map, isSome_endMark?_address h]

theorem end?_markup {address : Text} (h : IsAddress address) (hmarkup : opensMarkup address = true)
    (behind : Text) : ∃ mark, HtmlBlock.end? (address ++ '>' :: behind) = some (.mark mark) := by
  rw [← isSome_endMark?_address h behind] at hmarkup
  obtain ⟨mark, hfound⟩ := Option.isSome_iff_exists.mp hmarkup
  exact ⟨mark, by rw [(h.prefixed _).end?_eq (.inl rfl), hfound, Option.map_some]⟩

theorem IsUri.ne_cons {uri : Text} (h : IsUri uri) {c : Char} (hmark : c = '!' ∨ c = '?')
    (rest : Text) : uri ≠ c :: rest := by
  cases h with
  | @intro first scheme path hletter =>
  intro hsame
  obtain rfl : first = c := (List.cons.inj hsame).1
  obtain rfl | rfl := hmark <;> exact absurd hletter (by decide)

theorem opensMarkup_uri {uri : Text} (h : IsUri uri) : opensMarkup uri = false := by
  rw [opensMarkup.eq_def]
  split
  · exact absurd rfl (h.ne_cons (.inr rfl) _)
  · exact absurd rfl (h.ne_cons (.inl rfl) _)
  · exact absurd rfl (h.ne_cons (.inl rfl) _)
  · rfl

theorem end?_uri {uri : Text} (h : IsUri uri) (behind : Text) :
    HtmlBlock.end? (uri ++ behind) = none := by
  rw [(h.prefixed behind).end?_eq (.inr rfl), HtmlBlock.endMark?.eq_def,
    (h.prefixed behind).literalEnd?_none (.inr rfl), Option.none_or]
  obtain ⟨c, rest, rfl⟩ : ∃ c rest, uri = c :: rest := by
    cases h with
    | intro => exact ⟨_, _, rfl⟩
  split
  · next hstarts => exact absurd rfl ((List.cons.inj hstarts).1 ▸ h.ne_cons (.inl rfl) rest)
  · next hstarts => exact absurd rfl ((List.cons.inj hstarts).1 ▸ h.ne_cons (.inr rfl) rest)
  · next hstarts => exact absurd rfl ((List.cons.inj hstarts).1 ▸ h.ne_cons (.inl rfl) rest)
  · rfl

end Canonmark.Source.Autolink
