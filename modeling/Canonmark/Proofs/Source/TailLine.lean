import Canonmark.Proofs.Destination.LinkTail
import Canonmark.Proofs.Source.SameLine
import Canonmark.Proofs.Source.TokenLine

/-!
# Link tails on one line

A tail on one line consists of blanks, a destination, and blanks that may have a title between
them. A destination without brackets reaches up to a blank, a control or a parenthesis without a
partner, and a title up to the first closing quote that is not escaped.
-/

namespace Canonmark

namespace Entity

theorem reference?_take {n : Nat} {text value : Text} (h : reference? text = some (n, value)) :
    ∀ c ∈ text.take n, isReferenceChar c = true := by
  have hcut : reference? (text.takeWhile isReferenceChar) = reference? text :=
    reference?_congr (by simp [List.takeWhile_takeWhile])
  have hshort : n ≤ (text.takeWhile isReferenceChar).length :=
    (reference?_inner (hcut.trans h)).trans (List.takeWhile_sublist _).length_le
  intro c hmem
  rw [← List.takeWhile_append_dropWhile (p := isReferenceChar) (l := text),
    List.take_append_of_le_length hshort] at hmem
  exact List.mem_takeWhile_imp (List.mem_of_mem_take hmem)

end Entity

namespace Source

open Entity

theorem lt_of_isPunctuation {c : Char} (h : Ascii.isPunctuation c = true) : ' ' < c := by
  simp only [Ascii.isPunctuation, Bool.or_eq_true, Bool.and_eq_true, decide_eq_true_eq] at h
  have hhigh {d : Char} (hle : d ≤ c) (hvisible : ' ' < d) : ' ' < c :=
    UInt32.lt_of_lt_of_le hvisible hle
  rcases h with ((h | h) | h) | h
  all_goals exact hhigh h.1 (by decide)

/--
A destination without brackets in front of a text, behind `nesting` open parentheses. A backslash
escapes punctuation and stands for itself in front of anything else.
-/
inductive Bare (behind : Text) : (nesting : Nat) → (written : Text) → Prop
  | stop (hends : ∀ c ∈ behind.head?, c ≤ ' ' ∨ c = ')') : Bare behind 0 []
  | escape {nesting : Nat} {d : Char} {rest : Text} (hpunctuation : Ascii.isPunctuation d = true)
      (hlater : Bare behind nesting rest) : Bare behind nesting ('\\' :: d :: rest)
  | backslash {nesting : Nat} {rest : Text}
      (hletter : ∀ d ∈ (rest ++ behind).head?, Ascii.isPunctuation d = false)
      (hlater : Bare behind nesting rest) : Bare behind nesting ('\\' :: rest)
  | opens {nesting : Nat} {rest : Text} (hlater : Bare behind (nesting + 1) rest) :
      Bare behind nesting ('(' :: rest)
  | closes {nesting : Nat} {rest : Text} (hlater : Bare behind nesting rest) :
      Bare behind (nesting + 1) (')' :: rest)
  | plain {nesting : Nat} {c : Char} {rest : Text} (hvisible : ' ' < c)
      (hother : c ≠ '\\' ∧ c ≠ '(' ∧ c ≠ ')') (hlater : Bare behind nesting rest) :
      Bare behind nesting (c :: rest)

theorem bare_of_bare? {limit nesting : Nat} {text written : Text}
    (h : Destination.bare? limit nesting text = some written) :
    ∃ behind, text = written ++ behind ∧ Bare behind nesting written := by
  fun_induction Destination.bare? limit nesting text generalizing written with
  | case1 =>
      cases h
      exact ⟨[], rfl, .stop (by simp)⟩
  | case2 => cases h
  | case3 nesting d rest hpunctuation ih =>
      obtain ⟨written, hfound, rfl⟩ := Option.map_eq_some_iff.mp h
      obtain ⟨behind, rfl, hbare⟩ := ih hfound
      exact ⟨behind, rfl, .escape hpunctuation hbare⟩
  | case4 nesting d rest hletter ih =>
      obtain ⟨written, hfound, rfl⟩ := Option.map_eq_some_iff.mp h
      obtain ⟨behind, hsplit, hbare⟩ := ih hfound
      refine ⟨behind, congrArg _ hsplit, .backslash (fun e hmem => ?_) hbare⟩
      rw [← hsplit] at hmem
      obtain rfl : d = e := by simpa using hmem
      simpa using hletter
  | case5 c rest _ hlow =>
      cases h
      exact ⟨_, rfl, .stop (by simpa using .inl hlow)⟩
  | case6 => cases h
  | case7 => cases h
  | case8 nesting rest _ _ _ ih =>
      obtain ⟨written, hfound, rfl⟩ := Option.map_eq_some_iff.mp h
      obtain ⟨behind, rfl, hbare⟩ := ih hfound
      exact ⟨behind, rfl, .opens hbare⟩
  | case9 =>
      cases h
      exact ⟨_, rfl, .stop (by simp)⟩
  | case10 nesting rest hnested _ _ _ ih =>
      obtain ⟨written, hfound, rfl⟩ := Option.map_eq_some_iff.mp h
      obtain ⟨behind, rfl, hbare⟩ := ih hfound
      obtain ⟨nesting, rfl⟩ := Nat.exists_eq_succ_of_ne_zero hnested
      exact ⟨behind, rfl, .closes hbare⟩
  | case11 nesting c rest hunescaped hlow hopens hcloses ih =>
      obtain ⟨written, hfound, rfl⟩ := Option.map_eq_some_iff.mp h
      obtain ⟨behind, hsplit, hbare⟩ := ih hfound
      refine ⟨behind, congrArg _ hsplit, ?_⟩
      by_cases hbackslash : c = '\\'
      · subst hbackslash
        refine .backslash (fun d hmem => ?_) hbare
        rw [← hsplit] at hmem
        obtain ⟨more, rfl⟩ := List.head?_eq_some_iff.mp hmem
        exact absurd rfl (hunescaped d more rfl)
      · exact .plain (Char.not_le.mp hlow) ⟨hbackslash, hopens, hcloses⟩ hbare

namespace Bare

variable {behind written : Text} {nesting : Nat}

theorem visible (h : Bare behind nesting written) : ∀ c ∈ written, ' ' < c := by
  induction h with
  | stop => simp
  | escape hpunctuation _ ih => simpa [lt_of_isPunctuation hpunctuation] using ih
  | backslash _ _ ih => simpa using ih
  | opens _ ih => simpa using ih
  | closes _ ih => simpa using ih
  | plain hvisible _ _ ih => simpa [hvisible] using ih

theorem ends (h : Bare behind nesting written) : ∀ c ∈ behind.head?, c ≤ ' ' ∨ c = ')' := by
  induction h with
  | stop hends => exact hends
  | _ => assumption

end Bare

/-! ## Titles -/

namespace LinkTail

variable {context : InlineContext} {tokens : List Token} {position : Nat}

/-- What is written between the quotes of a title on one line, and the title that it spells. -/
inductive Quoted (start close : Char) : (written title : Text) → Prop
  | nil : Quoted start close [] []
  | escape {d : Char} {rest title : Text} (hpunctuation : Ascii.isPunctuation d = true)
      (hlater : Quoted start close rest title) : Quoted start close ('\\' :: d :: rest) (d :: title)
  | backslash {d : Char} {rest title : Text} (hletter : Ascii.isPunctuation d = false)
      (hlater : Quoted start close (d :: rest) title) :
      Quoted start close ('\\' :: d :: rest) ('\\' :: title)
  | reference {name value rest title : Text} (hnamed : ∀ c ∈ name, isReferenceChar c = true)
      (hlater : Quoted start close rest title) :
      Quoted start close ('&' :: (name ++ rest)) (value ++ title)
  | plain {c : Char} {rest title : Text} (hother : c ≠ '\\' ∧ c ≠ start ∧ c ≠ close)
      (hlater : Quoted start close rest title) : Quoted start close (c :: rest) (c :: title)

theorem titleStep_backslash (kept : Text) (d : Char) (rest : Text) :
    titleStep context tokens kept position '\\' (d :: rest)
      = if Ascii.isPunctuation d then (d :: kept, position + 2, rest)
        else ('\\' :: kept, position + 1, d :: rest) := rfl

theorem titleStep_reference {n : Nat} {rest value : Text}
    (hnamed : reference? rest = some (n, value)) (kept : Text) :
    titleStep context tokens kept position '&' rest
      = (value.reverse ++ kept, position + 1 + n, rest.drop n) := by
  simp [titleStep, hnamed]

/-- At the front of a text stands what is left of a title and its closing quote, the title so far
being `kept`, latest first. -/
def EndsTitle (start close : Char) (position : Nat) (front kept title : Text) (stop : Nat) : Prop :=
  ∃ written body after, front = written ++ close :: after ∧
    stop = position + written.length + 1 ∧ title = kept.reverse ++ body ∧
      Quoted start close written body

namespace EndsTitle

variable {start close : Char} {rest kept title : Text} {stop : Nat}

theorem closes : EndsTitle start close position (close :: rest) kept kept.reverse (position + 1) :=
  ⟨[], [], rest, rfl, rfl, by simp, .nil⟩

theorem escape {d : Char} (h : EndsTitle start close (position + 2) rest (d :: kept) title stop)
    (hpunctuation : Ascii.isPunctuation d = true) :
    EndsTitle start close position ('\\' :: d :: rest) kept title stop := by
  obtain ⟨written, body, after, rfl, rfl, rfl, hquoted⟩ := h
  refine ⟨'\\' :: d :: written, d :: body, after, rfl, ?_, by simp, .escape hpunctuation hquoted⟩
  simp only [List.length_cons]
  omega

/-- Behind a backslash that escapes nothing stands no quote, so what does belongs to the title. -/
theorem backslash {d : Char}
    (h : EndsTitle start close (position + 1) (d :: rest) ('\\' :: kept) title stop)
    (hmark : Ascii.isPunctuation close = true) (hletter : ¬Ascii.isPunctuation d = true) :
    EndsTitle start close position ('\\' :: d :: rest) kept title stop := by
  obtain ⟨written, body, after, hsplit, rfl, rfl, hquoted⟩ := h
  cases written with
  | nil =>
      obtain ⟨rfl, -⟩ := List.cons.inj hsplit
      exact absurd hmark hletter
  | cons e written =>
      obtain ⟨rfl, rfl⟩ := List.cons.inj hsplit
      refine ⟨'\\' :: d :: written, '\\' :: body, after, rfl, ?_, by simp,
        .backslash (by simpa using hletter) hquoted⟩
      simp only [List.length_cons]
      omega

theorem reference {n : Nat} {value : Text}
    (h : EndsTitle start close (position + 1 + n) (rest.drop n) (value.reverse ++ kept) title stop)
    (hshort : n ≤ rest.length) (hname : ∀ c ∈ rest.take n, isReferenceChar c = true) :
    EndsTitle start close position ('&' :: rest) kept title stop := by
  obtain ⟨written, body, after, hsplit, rfl, rfl, hquoted⟩ := h
  refine ⟨'&' :: (rest.take n ++ written), value ++ body, after, ?_, ?_, by simp,
    .reference hname hquoted⟩
  · rw [List.cons_append, List.append_assoc, ← hsplit, List.take_append_drop]
  · simp only [List.length_cons, List.length_append, List.length_take_of_le hshort]
    omega

theorem plain {c : Char} (h : EndsTitle start close (position + 1) rest (c :: kept) title stop)
    (hother : c ≠ '\\' ∧ c ≠ start ∧ c ≠ close) :
    EndsTitle start close position (c :: rest) kept title stop := by
  obtain ⟨written, body, after, rfl, rfl, rfl, hquoted⟩ := h
  refine ⟨c :: written, c :: body, after, rfl, ?_, by simp, .plain hother hquoted⟩
  simp only [List.length_cons]
  omega

end EndsTitle

theorem endsTitle_of_titleFrom? {start close : Char} (hmark : Ascii.isPunctuation close = true)
    {fuel : Nat} {kept front behind title : Text} {stop : Nat} (hline : '\n' ∉ front ∧ '\r' ∉ front)
    (hread : titleFrom? context tokens start close fuel kept position (front ++ behind)
      = some (title, stop))
    (hwithin : stop ≤ position + front.length) :
    EndsTitle start close position front kept title stop := by
  induction fuel generalizing kept position front with
  | zero => cases hread
  | succ fuel ih =>
  have hbegun := lt_titleFrom? hread
  cases front with
  | nil =>
      simp only [List.length_nil] at hwithin
      omega
  | cons c rest =>
  simp only [List.mem_cons, not_or] at hline
  have hinLine : '\n' ∉ rest ∧ '\r' ∉ rest := ⟨hline.1.2, hline.2.2⟩
  simp only [List.length_cons] at hwithin
  rw [List.cons_append, titleFrom?.eq_def] at hread
  simp only at hread
  split at hread
  · next hcloses =>
      cases hread
      subst hcloses
      exact .closes
  next hinside =>
  split at hread
  · cases hread
  next hclosed =>
  have hlater : (titleStep context tokens kept position c (rest ++ behind)).2.1 < stop :=
    lt_titleFrom? hread
  by_cases hbackslash : c = '\\'
  · subst hbackslash
    cases rest with
    | nil =>
        have hstepped := lt_titleStep context tokens kept position '\\' behind
        simp only [List.length_nil, List.nil_append] at hwithin hlater
        omega
    | cons d rest =>
        by_cases hpunctuation : Ascii.isPunctuation d = true
        · simp only [List.cons_append, titleStep_backslash, if_pos hpunctuation] at hread
          simp only [List.mem_cons, not_or] at hinLine
          simp only [List.length_cons] at hwithin
          exact (ih ⟨hinLine.1.2, hinLine.2.2⟩ hread (by omega)).escape hpunctuation
        · simp only [List.cons_append, titleStep_backslash, if_neg hpunctuation] at hread
          exact (ih hinLine hread (by omega)).backslash hmark hpunctuation
  by_cases hnamed : ∃ n value, c = '&' ∧ reference? (rest ++ behind) = some (n, value)
  · obtain ⟨n, value, rfl, hnamed⟩ := hnamed
    rw [titleStep_reference hnamed] at hread hlater
    simp only at hread hlater
    have hshort : n ≤ rest.length := by omega
    have hname := reference?_take hnamed
    rw [List.take_append_of_le_length hshort] at hname
    rw [List.drop_append_of_le_length hshort] at hread
    have hends := ih ⟨fun hmem => hinLine.1 (List.mem_of_mem_drop hmem),
      fun hmem => hinLine.2 (List.mem_of_mem_drop hmem)⟩ hread (by rw [List.length_drop]; omega)
    exact hends.reference hshort hname
  · have hliteral : c = '&' → reference? (rest ++ behind) = none := fun hampersand =>
      Option.eq_none_iff_forall_not_mem.mpr fun found hmem =>
        hnamed ⟨found.1, found.2, hampersand, hmem⟩
    rw [titleStep_plain ⟨Ne.symm hline.1.1, Ne.symm hline.2.1⟩ hbackslash hliteral] at hread
    simp only at hread
    exact (ih hinLine hread (by omega)).plain ⟨hbackslash, hclosed, hinside⟩

def closer (start : Char) : Char := if start = '(' then ')' else start

theorem quoted_of_title? {front behind title : Text} {stop : Nat}
    (hline : '\n' ∉ front ∧ '\r' ∉ front)
    (hread : title? context tokens position (front ++ ')' :: behind) = some (title, stop))
    (hwithin : stop ≤ position + front.length) :
    ∃ start written after, front = start :: (written ++ closer start :: after) ∧
      (start = '"' ∨ start = '\'' ∨ start = '(') ∧ stop = position + written.length + 2 ∧
      Quoted start (closer start) written title := by
  cases front with
  | nil => cases hread
  | cons start front =>
  rw [List.cons_append, title?] at hread
  split at hread
  · next hquote =>
      have hquote : start = '"' ∨ start = '\'' ∨ start = '(' := by simpa [or_assoc] using hquote
      have hmark : Ascii.isPunctuation (closer start) = true := by
        rcases hquote with rfl | rfl | rfl
        all_goals rfl
      simp only [List.mem_cons, not_or] at hline
      obtain ⟨written, body, after, rfl, rfl, rfl, hquoted⟩ :=
        endsTitle_of_titleFrom? hmark ⟨hline.1.2, hline.2.2⟩ hread
          (by simp only [List.length_cons] at hwithin; omega)
      exact ⟨start, written, after, rfl, hquote, by omega, hquoted⟩
  · cases hread

/-! ## Tails -/

/-- What stands between a destination and the closing parenthesis, and the title in it. -/
inductive Ending : (tail title : Text) → Prop
  | blank {gap : Text} (hblank : ∀ c ∈ gap, Ascii.isBlank c = true) : Ending gap []
  | titled {gap written title after : Text} {start : Char} (hspaced : gap ≠ [])
      (hblank : ∀ c ∈ gap ++ after, Ascii.isBlank c = true)
      (hquote : start = '"' ∨ start = '\'' ∨ start = '(')
      (hquoted : Quoted start (closer start) written title) :
      Ending (gap ++ start :: (written ++ closer start :: after)) title

theorem space_split (context : InlineContext) {front : Text} (hline : '\n' ∉ front ∧ '\r' ∉ front) :
    ∃ gap visible, front = gap ++ visible ∧ (∀ c ∈ gap, Ascii.isBlank c = true) ∧
      (∀ c ∈ visible.head?, Ascii.isBlank c = false) ∧
      ∀ behind, space context (front ++ ')' :: behind) = gap.length := by
  have hsplit := List.takeWhile_append_dropWhile (p := Ascii.isBlank) (l := front)
  refine ⟨front.takeWhile Ascii.isBlank, front.dropWhile Ascii.isBlank, hsplit.symm,
    fun c hmem => List.mem_takeWhile_imp hmem, fun c hmem => ?_, fun behind => ?_⟩
  · have := List.head?_dropWhile_not Ascii.isBlank front
    rw [Option.mem_def.mp hmem] at this
    simpa using this
  · have hstop : Ascii.isBlank ')' = false := rfl
    have hends : eol? ((front ++ ')' :: behind).dropWhile Ascii.isBlank) = none := by
      rw [Text.dropWhile_stop hstop]
      cases hvisible : front.dropWhile Ascii.isBlank with
      | nil => rfl
      | cons c rest =>
          have hmem : c ∈ front := by
            rw [← hsplit, hvisible]
            simp
          exact eol?_cons (fun h => hline.1 (h ▸ hmem)) (fun h => hline.2 (h ▸ hmem)) _
    rw [← Text.drop_length_takeWhile, Text.takeWhile_stop hstop] at hends
    simp only [space, countWhile, Text.takeWhile_stop hstop, hends]

theorem Ending.eq_nil {tail title : Text} (h : Ending tail title)
    (hvisible : ∀ c ∈ tail.head?, Ascii.isBlank c = false) : tail = [] := by
  have hempty {gap : Text} (hblank : ∀ c ∈ gap, Ascii.isBlank c = true)
      (hvisible : ∀ c ∈ gap.head?, Ascii.isBlank c = false) : gap = [] := by
    cases gap with
    | nil => rfl
    | cons c gap => exact absurd (hblank c List.mem_cons_self) (by simp [hvisible c rfl])
  cases h with
  | blank hblank => exact hempty hblank hvisible
  | titled hspaced hblank =>
      refine absurd (hempty (fun c hmem => hblank c (List.mem_append_left _ hmem)) fun c hmem => ?_)
        hspaced
      exact hvisible c (by rw [List.head?_append, Option.mem_def.mp hmem]; rfl)

theorem textAt_append (hle : context.base ≤ position) {front rest : Text}
    (htext : context.textAt position = front ++ rest) :
    context.textAt (position + front.length) = rest := by
  rw [InlineContext.textAt_add hle, htext, List.drop_left]

theorem ending_of_read {tail behind title : Text} {last : Nat} (hle : context.base ≤ position)
    (htext : context.textAt position = tail ++ ')' :: behind) (hline : '\n' ∉ tail ∧ '\r' ∉ tail)
    (hends : ∀ c ∈ (tail ++ ')' :: behind).head?, c ≤ ' ' ∨ c = ')')
    (hreach : last = position + tail.length)
    (htitled : let gap := position + space context (context.textAt position)
      title? context tokens gap (context.textAt gap) = none ∧ title = [] ∧ last = gap ∨
        ∃ stop, title? context tokens gap (context.textAt gap) = some (title, stop) ∧
          last = stop + space context (context.textAt stop)) :
    Ending tail title := by
  obtain ⟨gap, visible, rfl, hblanks, -, hpassed⟩ := space_split context hline
  rw [htext, hpassed] at htitled
  have hbehindGap := textAt_append hle (htext.trans (List.append_assoc _ _ _))
  simp only [List.mem_append, not_or] at hline
  simp only [List.length_append] at hreach
  rcases htitled with ⟨-, rfl, hsame⟩ | ⟨stop, hread, hsame⟩
  · obtain rfl : visible = [] := List.eq_nil_of_length_eq_zero (by omega)
    exact .blank (by simpa using hblanks)
  · rw [hbehindGap] at hread
    obtain ⟨start, written, after, rfl, hquote, rfl, hquoted⟩ :=
      quoted_of_title? ⟨hline.1.2, hline.2.2⟩ hread (by omega)
    have hquotedText : context.textAt (position + gap.length)
        = start :: (written ++ [closer start]) ++ (after ++ ')' :: behind) := by
      rw [hbehindGap]
      simp
    have hbehindQuote := textAt_append (Nat.le_add_right_of_le hle) hquotedText
    simp only [List.mem_cons, List.mem_append, not_or] at hline
    obtain ⟨blank, more, rfl, htrailing, -, hskipped⟩ :=
      space_split context ⟨hline.1.2.2.2.2, hline.2.2.2.2.2⟩
    have hposition_eq : position + gap.length + written.length + 2
        = position + gap.length + (start :: (written ++ [closer start])).length := by
      simp only [List.length_cons, List.length_append, List.length_nil]
      omega
    rw [hposition_eq, hbehindQuote, hskipped] at hsame
    simp only [List.length_cons, List.length_append, List.length_nil] at hsame hreach
    obtain rfl : more = [] := List.eq_nil_of_length_eq_zero (by omega)
    rw [List.append_nil]
    refine .titled ?_ (by simpa [or_imp, forall_and] using ⟨hblanks, htrailing⟩) hquote hquoted
    rintro rfl
    have hends := hends start rfl
    rcases hquote with rfl | rfl | rfl
    all_goals exact absurd hends (by decide)

/--
The parts of a tail on one line. Of a destination between angle brackets only the first of them is
told here.
-/
theorem parts_of_read? {inner behind destination title : Text} (hle : context.base ≤ position)
    (htext : context.textAt position = '(' :: (inner ++ ')' :: behind))
    (hline : '\n' ∉ inner ∧ '\r' ∉ inner)
    (h : read? context tokens position
      = some (destination, title, position + inner.length + 2)) :
    ∃ gap content, inner = gap ++ content ∧ (∀ c ∈ gap, Ascii.isBlank c = true) ∧
      (∀ c ∈ content.head?, Ascii.isBlank c = false) ∧
      (content.head? = some '<' ∨ ∃ written tail, content = written ++ tail ∧
        Bare (tail ++ ')' :: behind) 0 written ∧ destination = Escape.resolve written ∧
        Ending tail title) := by
  obtain ⟨_, written, size, last, _, hopening, hscanned, hresolved, htitled, -, hstop⟩ :=
    read?_parts h
  obtain ⟨-, rfl⟩ := List.cons.inj (htext.symm.trans hopening)
  obtain ⟨gap, content, rfl, hblank, hvisible, hskipped⟩ := space_split context hline
  refine ⟨gap, content, rfl, hblank, hvisible, ?_⟩
  simp only [List.mem_append, not_or] at hline
  have hwhole : context.textAt position = ['('] ++ (gap ++ (content ++ ')' :: behind)) := by
    rw [htext]
    simp
  have hinside := textAt_append hle hwhole
  have hstart := textAt_append (Nat.le_succ_of_le hle) hinside
  by_cases hbracket : content.head? = some '<'
  · exact .inl hbracket
  right
  rw [hskipped, hstart, Destination.scan?.eq_2] at hscanned
  · obtain ⟨found, hbare, hsame⟩ := Option.map_eq_some_iff.mp hscanned
    obtain ⟨rfl, rfl⟩ := Prod.mk.inj hsame
    obtain ⟨rest, hsplit, hbare⟩ := bare_of_bare? hbare
    rw [hskipped] at htitled
    have hreach : position + 1 + gap.length + found.length ≤ last := by
      rcases htitled with ⟨-, -, rfl⟩ | ⟨stop, hread, rfl⟩
      · exact Nat.le_add_right _ _
      · have := lt_title? hread
        omega
    simp only [List.length_append] at hstop
    obtain ⟨tail, rfl, rfl⟩ : ∃ tail, content = found ++ tail ∧ rest = tail ++ ')' :: behind := by
      rcases List.append_eq_append_iff.mp hsplit with ⟨more, rfl, hwhole⟩ | h
      · obtain rfl : more = [] := List.eq_nil_of_length_eq_zero (by
          simp only [List.length_append] at hreach
          omega)
        exact ⟨[], by simp, by simpa using hwhole.symm⟩
      · exact h
    simp only [List.mem_append, not_or] at hline
    simp only [List.length_append] at hstop
    have hfollows := textAt_append (by omega) (hstart.trans (List.append_assoc _ _ _))
    exact ⟨found, tail, rfl, hbare, hresolved,
      ending_of_read (by omega) hfollows ⟨hline.1.2.2, hline.2.2.2⟩ hbare.ends (by omega) htitled⟩
  · intro rest hfront
    refine hbracket ?_
    cases content with
    | nil => cases hfront
    | cons c content => exact congrArg some (List.cons.inj hfront).1

end LinkTail

end Source

end Canonmark
