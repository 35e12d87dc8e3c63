import Canonmark.Proofs.Wrapped.Starts

/-!
# Labels on two sides

A label ends at the first bracket that no backslash escapes, which is in front of every mark on
its line. How it goes on behind a line break is told by a reader of lines that agrees on both sides.
-/

namespace Canonmark.SpacedDestination

open Source

variable {follow : Text → Option Nat}

theorem Clear.length_drop {n : Nat} {marked : Marked} (h : Clear n marked) (wrapped : Bool) :
    (Marked.side wrapped (marked.drop n)).length = (marked.side wrapped).length - n := by
  rw [← h.drop_side, List.length_drop]

theorem Clear.le_length {n : Nat} {marked : Marked} (h : Clear n marked) (wrapped : Bool) :
    n ≤ (marked.side wrapped).length := by
  obtain ⟨text, rest, rfl, rfl, -⟩ := h
  simp

theorem length_side_le (marked : Marked) (wrapped : Bool) :
    (marked.side false).length ≤ (marked.side wrapped).length := by
  induction marked with
  | nil => simp
  | cons mark rest ih =>
      obtain ⟨c, inserted⟩ := mark
      cases inserted with
      | false => simpa using ih
      | true =>
          cases wrapped with
          | false => exact Nat.le_refl _
          | true => simpa using Nat.le_succ_of_le ih

theorem Ready.escaped {c : Char} {rest : Marked} (h : Woven (.plain true) ((c, false) :: rest)) :
    Ready rest := by
  obtain ⟨-, hrest⟩ := (Woven.cons_false_iff _ _ _).mp h
  by_cases hn : c = '\n'
  · subst hn
    exact hrest
  by_cases hangle : c = '<'
  · subst hangle
    exact @Woven.of_closed (.plain false) trivial _ hrest
  · simpa [Ready, Phase.next, hn, hangle] using hrest

/-- Readers with fuel run out of it together: what is left beyond the text is the same. -/
structure Fueled (fuel fuel' : Nat) (wrapped : Bool) (marked : Marked) : Prop where
  enough : (marked.side false).length ≤ fuel'
  equal : fuel + (marked.side false).length = fuel' + (marked.side wrapped).length

theorem Fueled.zero {fuel' : Nat} {wrapped : Bool} {marked : Marked}
    (h : Fueled 0 fuel' wrapped marked) : fuel' = 0 := by
  have := length_side_le marked wrapped
  have := h.equal
  omega

theorem Fueled.succ {fuel fuel' : Nat} {wrapped : Bool} {marked : Marked}
    (h : Fueled (fuel + 1) fuel' wrapped marked) (hready : Ready marked) :
    ∃ fuel'', fuel' = fuel'' + 1 := by
  cases fuel' with
  | succ fuel' => exact ⟨fuel', rfl⟩
  | zero =>
      have henough := h.enough
      have hequal := h.equal
      rcases hready.cases with rfl | ⟨c, rest, rfl, -⟩
      · simp at hequal
      · simp at henough

theorem Fueled.drop {fuel fuel' n : Nat} {wrapped : Bool} {marked : Marked}
    (h : Fueled (fuel + 1) (fuel' + 1) wrapped marked) (hclear : Clear n marked) (hn : 0 < n) :
    Fueled fuel fuel' wrapped (marked.drop n) := by
  have hlength := hclear.length_drop wrapped
  have hlength' := hclear.length_drop false
  have hle := hclear.le_length wrapped
  have hle' := hclear.le_length false
  have henough := h.enough
  have hequal := h.equal
  constructor <;> omega

theorem Ready.labelSpace (hfollow : ∀ marked, Ready marked → Agrees follow marked)
    {marked : Marked} (h : Ready marked) (wrapped broken : Bool) {fuel fuel' : Nat}
    (hfuel : Fueled fuel fuel' wrapped marked) :
    Label.space? follow fuel broken (marked.side wrapped) =
        Label.space? follow fuel' broken (marked.side false) ∧
      ∀ n, Label.space? follow fuel' broken (marked.side false) = some n → Clear n marked := by
  induction fuel generalizing marked broken fuel' with
  | zero =>
      cases hfuel.zero
      exact ⟨rfl, fun n hn => by cases hn⟩
  | succ fuel ih =>
      obtain ⟨fuel', rfl⟩ := hfuel.succ h
      rcases h.cases with rfl | ⟨c, rest, rfl, hcr, -⟩
      · refine ⟨by simp [Label.space?], fun n hn => ?_⟩
        cases hn
        exact Clear.zero h
      by_cases hspace : Ascii.isSpace c = true
      · have hready := h.tail (c := c) (by rintro rfl; cases hspace) (by rintro rfl; cases hspace)
        by_cases hn : c = '\n'
        · subst hn
          cases broken with
          | true => exact ⟨by simp [Label.space?, hspace, Source.eol?], fun n hn => by
              simp [Label.space?, hspace, Source.eol?] at hn⟩
          | false =>
              obtain ⟨hside, hclear⟩ := hfollow rest hready
              cases hskip : follow (Marked.side false rest) with
              | none => exact ⟨by simp [Label.space?, hspace, Source.eol?, hside wrapped, hskip],
                  fun n hn => by simp [Label.space?, hspace, Source.eol?, hskip] at hn⟩
              | some skipped =>
                  have hskipped := hclear skipped hskip
                  have hdrop (side : Bool) :
                      ('\n' :: Marked.side side rest).drop (1 + skipped) =
                        Marked.side side (rest.drop skipped) := by
                    rw [Nat.add_comm, List.drop_succ_cons, hskipped.drop_side]
                  obtain ⟨hrest, hrestClear⟩ := ih hskipped.ready true
                    (hfuel.drop hskipped.cons (Nat.succ_pos _))
                  refine ⟨?_, fun n hn => ?_⟩
                  · simp [Label.space?, hspace, Source.eol?, hside wrapped, hskip, hdrop, hrest]
                  · simp only [Marked.side_cons_false, Label.space?, hspace, Source.eol?,
                      List.drop_succ_cons, List.drop_zero, hskip] at hn
                    simp only [Bool.not_true, Bool.false_eq_true, if_false, Option.bind_some,
                      hdrop] at hn
                    obtain ⟨k, hk, rfl⟩ := Option.map_eq_some_iff.mp hn
                    rw [show k + (1 + skipped) = skipped + k + 1 by omega]
                    exact (hskipped.add (hrestClear k hk)).cons
        · have hnone := eol?_cons hn hcr
          obtain ⟨hrest, hclear⟩ := ih hready broken
            (hfuel.drop (Clear.zero hready).cons (Nat.succ_pos _))
          refine ⟨by simp [Label.space?, hspace, hnone, hrest], fun n hn => ?_⟩
          simp only [Marked.side_cons_false, Label.space?, hspace, hnone] at hn
          obtain ⟨k, hk, rfl⟩ := Option.map_eq_some_iff.mp hn
          exact (hclear k hk).cons
      · refine ⟨by simp [Label.space?, hspace], fun n hn => ?_⟩
        simp only [Marked.side_cons_false, Label.space?, hspace] at hn
        cases hn
        exact Clear.zero h

theorem labelSpace_pos {fuel n : Nat} {broken : Bool} {c : Char} {rest : Text}
    (hspace : Ascii.isSpace c = true) (hcr : c ≠ '\r')
    (h : Label.space? follow fuel broken (c :: rest) = some n) : 0 < n := by
  cases fuel with
  | zero => cases h
  | succ fuel =>
      by_cases hn : c = '\n'
      · subst hn
        simp only [Label.space?, hspace, Source.eol?] at h
        split at h
        · cases hspace ▸ (by assumption : (!true) = true)
        split at h
        · cases h
        · obtain ⟨skipped, -, h⟩ := Option.bind_eq_some_iff.mp h
          obtain ⟨k, -, rfl⟩ := Option.map_eq_some_iff.mp h
          omega
      · simp only [Label.space?, hspace, eol?_cons hn hcr] at h
        obtain ⟨k, -, rfl⟩ := Option.map_eq_some_iff.mp h
        omega

/-- Characters without marks up to and including a closing bracket. -/
def ClosesAt (n : Nat) (marked : Marked) : Prop :=
  ∃ (text : Text) (rest : Marked), marked = Marked.plain text ++ (']', false) :: rest ∧
    n = text.length + 1 ∧ Woven .bracket rest

theorem ClosesAt.add {n k : Nat} {marked : Marked} (h : Clear k marked)
    (hn : ClosesAt n (marked.drop k)) : ClosesAt (k + n) marked := by
  obtain ⟨text, rest, rfl, rfl, -⟩ := h
  rw [Clear.drop_append] at hn
  obtain ⟨more, behind, rfl, rfl, hwoven⟩ := hn
  exact ⟨text ++ more, behind, by simp, by simp [Nat.add_assoc], hwoven⟩

theorem labelRead_cons {fuel weight length : Nat} {blank : Bool} {kept : Text} {c : Char}
    {rest : Text} (hweight : ¬weight > Label.maxWeight) (hopen : c ≠ '[') (hclose : c ≠ ']')
    (hback : c ≠ '\\') :
    Label.read? follow (fuel + 1) weight blank kept length (c :: rest) =
      if Ascii.isSpace c then
        (Label.space? follow fuel false (c :: rest)).bind fun n =>
          Label.read? follow fuel (weight + n) blank (' ' :: kept) (length + n)
            ((c :: rest).drop n)
      else
        Label.read? follow fuel (if Unicode.isAscii c then weight else weight + c.utf8Size) false
          (c :: kept) (length + 1) rest := by
  rw [Label.read?, if_neg hweight] <;> simp_all

theorem Ready.labelRead (hfollow : ∀ marked, Ready marked → Agrees follow marked)
    {marked : Marked} (h : Ready marked) (wrapped : Bool) {fuel fuel' : Nat}
    (hfuel : Fueled fuel fuel' wrapped marked) (weight : Nat) (blank : Bool) (kept : Text)
    (length : Nat) :
    Label.read? follow (fuel + 1) weight blank kept length (marked.side wrapped) =
        Label.read? follow (fuel' + 1) weight blank kept length (marked.side false) ∧
      ∀ label total,
        Label.read? follow (fuel' + 1) weight blank kept length (marked.side false) =
            some (label, total) →
          ∃ n, total = length + n ∧ ClosesAt n marked := by
  induction fuel generalizing marked fuel' weight blank kept length with
  | zero =>
      cases hfuel.zero
      rcases h.cases with rfl | ⟨c, rest, rfl, -⟩
      · exact ⟨by simp [Label.read?], fun label total hn => by simp [Label.read?] at hn⟩
      · have := hfuel.enough
        simp at this
  | succ fuel ih =>
      obtain ⟨fuel', rfl⟩ := hfuel.succ h
      by_cases hweight : weight > Label.maxWeight
      · exact ⟨by simp [Label.read?, hweight], fun label total hn => by
          simp [Label.read?, hweight] at hn⟩
      rcases h.cases with rfl | ⟨c, rest, rfl, hcr, hnext⟩
      · exact ⟨by simp [Label.read?], fun label total hn => by simp [Label.read?] at hn⟩
      by_cases hopen : c = '['
      · exact ⟨by simp [Label.read?, hopen], fun label total hn => by
          simp [Label.read?, hopen] at hn⟩
      by_cases hclose : c = ']'
      · subst hclose
        refine ⟨by simp [Label.read?], fun label total hn => ?_⟩
        simp only [Marked.side_cons_false, Label.read?, hweight, if_false] at hn
        obtain ⟨-, heq⟩ := Option.ite_none_left_eq_some.mp hn
        cases heq
        exact ⟨1, rfl, [], rest, rfl, rfl, hnext⟩
      by_cases hback : c = '\\'
      · subst hback
        have hnext : Woven (.plain true) rest := hnext
        rcases hnext.cases (by decide) (by decide) with rfl | ⟨d, more, rfl, -⟩
        · exact ⟨by simp [Label.read?], fun label total hn => by
            simp [Label.read?, hweight] at hn⟩
        have hready := Ready.escaped hnext
        obtain ⟨hrest, hends⟩ := ih hready
          (hfuel.drop (Clear.zero hready).cons.cons (Nat.succ_pos _))
          (weight + 1 + d.utf8Size) (blank && Unicode.isAscii d) (d :: '\\' :: kept) (length + 2)
        refine ⟨?_, fun label total hn => ?_⟩
        · simp only [Marked.side_cons_false, Label.read?, hweight, if_false]
          exact hrest
        · simp only [Marked.side_cons_false, Label.read?, hweight, if_false] at hn
          obtain ⟨n, rfl, hcloses⟩ := hends label total hn
          exact ⟨2 + n, by omega, ClosesAt.add (Clear.zero hready).cons.cons hcloses⟩
      have hready := h.tail hback hclose
      by_cases hspace : Ascii.isSpace c = true
      · obtain ⟨hskip, hclear⟩ := h.labelSpace hfollow wrapped false hfuel
        simp only [Marked.side_cons_false] at hskip hclear
        simp only [Marked.side_cons_false, labelRead_cons hweight hopen hclose hback, hspace,
          if_true, hskip]
        cases hn : Label.space? follow (fuel' + 1) false (c :: Marked.side false rest) with
        | none => exact ⟨rfl, fun label total h => by cases h⟩
        | some n =>
            have hskipped := hclear n hn
            have hdrop (side : Bool) := hskipped.drop_side side
            simp only [Marked.side_cons_false] at hdrop
            obtain ⟨hrest, hends⟩ := ih hskipped.ready
              (hfuel.drop hskipped (labelSpace_pos hspace hcr hn)) (weight + n) blank (' ' :: kept)
                (length + n)
            simp only [Option.bind_some, hdrop]
            refine ⟨hrest, fun label total h => ?_⟩
            obtain ⟨k, rfl, hcloses⟩ := hends label total h
            exact ⟨n + k, by omega, ClosesAt.add hskipped hcloses⟩
      · obtain ⟨hrest, hends⟩ := ih hready (hfuel.drop (Clear.zero hready).cons (Nat.succ_pos _))
          (if Unicode.isAscii c then weight else weight + c.utf8Size) false (c :: kept) (length + 1)
        simp only [Marked.side_cons_false, labelRead_cons hweight hopen hclose hback, hspace]
        refine ⟨hrest, fun label total h => ?_⟩
        obtain ⟨k, rfl, hcloses⟩ := hends label total h
        exact ⟨1 + k, by omega, ClosesAt.add (Clear.zero hready).cons hcloses⟩

/-- What a label reader finds is the same on both sides, and ends before the marks of its line. -/
theorem Ready.labelScan (hfollow : ∀ marked, Ready marked → Agrees follow marked)
    {marked : Marked} (h : Ready marked) :
    (∀ wrapped, Label.scan? follow (marked.side wrapped) =
      Label.scan? follow (marked.side false)) ∧
      ∀ label n, Label.scan? follow (marked.side false) = some (label, n) → ClosesAt n marked := by
  have hread (wrapped : Bool) := @Ready.labelRead _ hfollow marked h wrapped
    (marked.side wrapped).length (marked.side false).length ⟨Nat.le_refl _, by omega⟩ 0 true [] 0
  refine ⟨fun wrapped => (hread wrapped).1, fun label n hn => ?_⟩
  obtain ⟨k, rfl, hcloses⟩ := (hread false).2 label n hn
  rwa [Nat.zero_add]

/-- Behind a label: either a colon on both sides, and the text behind it is ready, or none. -/
theorem ClosesAt.colon {n : Nat} {marked : Marked} (h : ClosesAt n marked) :
    (∀ wrapped tail, (marked.side wrapped).drop n ≠ ':' :: tail) ∨
      Clear (n + 1) marked ∧
        ∀ wrapped, (marked.side wrapped).drop n =
          ':' :: Marked.side wrapped (marked.drop (n + 1)) := by
  obtain ⟨text, rest, rfl, rfl, hwoven⟩ := h
  have hsplit (rest : Marked) : Marked.plain text ++ (']', false) :: rest =
      Marked.plain (text ++ [']']) ++ rest := by simp [Marked.plain]
  have hlength : text.length + 1 = (text ++ [']']).length := by simp
  have hdrop (wrapped : Bool) :
      (Marked.side wrapped (Marked.plain text ++ (']', false) :: rest)).drop (text.length + 1) =
        rest.side wrapped := by
    rw [hsplit, Marked.side_append, Marked.side_plain, hlength, List.drop_left]
  simp only [hdrop]
  rcases hwoven.cases (by decide) (by decide) with rfl | ⟨c, tail, rfl, -, htail⟩
  · left
    simp
  by_cases hc : c = ':'
  · subst hc
    right
    have hready : Ready tail := htail
    have hcolon : Marked.plain text ++ (']', false) :: (':', false) :: tail =
        Marked.plain (text ++ [']', ':']) ++ tail := by simp [Marked.plain]
    have hlength' : text.length + 1 + 1 = (text ++ [']', ':']).length := by simp
    have hclear : Clear (text.length + 1 + 1)
        (Marked.plain text ++ (']', false) :: (':', false) :: tail) :=
      ⟨text ++ [']', ':'], tail, by simp, hcolon, hready⟩
    refine ⟨hclear, fun wrapped => ?_⟩
    rw [Marked.side_cons_false, hcolon, hlength', Clear.drop_append]
  · left
    intro wrapped behind heq
    rw [Marked.side_cons_false] at heq
    exact hc (List.cons.inj heq).1

theorem agrees_none (marked : Marked) : Agrees (fun _ => none) marked :=
  ⟨fun _ => rfl, fun n hn => by cases hn⟩

theorem footnoteLabel?_of_scan {text label : Text} {n : Nat}
    (hscan : Label.scan? (fun _ => none) text = some (label, n))
    (hcolon : ∀ tail, text.drop n ≠ ':' :: tail) : Source.footnoteLabel? text = none := by
  rw [Source.footnoteLabel?, hscan, Option.bind_some]
  simp only

theorem Ready.footnoteLabel? {marked : Marked} (h : Ready marked) :
    (∀ wrapped, Source.footnoteLabel? (marked.side wrapped) =
      Source.footnoteLabel? (marked.side false)) ∧
      ∀ label n, Source.footnoteLabel? (marked.side false) = some (label, n) → Clear n marked := by
  obtain ⟨hside, hcloses⟩ := @Ready.labelScan (fun _ => none) (fun marked _ => agrees_none marked)
    marked h
  cases hscan : Label.scan? (fun _ => none) (marked.side false) with
  | none =>
      simp only [Source.footnoteLabel?, hside, hscan]
      exact ⟨fun wrapped => rfl, fun label n hn => by cases hn⟩
  | some found =>
      obtain ⟨label, n⟩ := found
      rcases (hcloses label n hscan).colon with hnone | ⟨hclear, hcolon⟩
      · have hno (wrapped : Bool) : Source.footnoteLabel? (marked.side wrapped) = none :=
          footnoteLabel?_of_scan ((hside wrapped).trans hscan) (hnone wrapped)
        exact ⟨fun wrapped => (hno wrapped).trans (hno false).symm, fun label' n' hn => by
          cases (hno false).symm.trans hn⟩
      · simp only [Source.footnoteLabel?, hside, hscan, Option.bind_some, hcolon]
        exact ⟨fun wrapped => trivial, fun label' n' hn => by cases hn; exact hclear⟩

theorem Ready.startsFootnote {marked : Marked} (h : Ready marked) (wrapped : Bool) :
    Source.startsFootnote (marked.side wrapped) = Source.startsFootnote (marked.side false) := by
  rcases h.cases with rfl | ⟨c, rest, rfl, -⟩
  · simp
  by_cases hc : c = '['
  · subst hc
    have hready := h.tail (by decide) (by decide)
    rcases hready.cases with rfl | ⟨d, more, rfl, -⟩
    · simp [Source.startsFootnote]
    by_cases hd : d = '^'
    · subst hd
      have hlabel := (hready.tail (by decide) (by decide)).footnoteLabel?.1 wrapped
      simp [Source.startsFootnote, hlabel]
    · simp [Source.startsFootnote, hd]
  · simp [Source.startsFootnote, hc]

end Canonmark.SpacedDestination
