import Canonmark.Proofs.Wrapped.Labels

/-!
# Tables on two sides

The pipes of a line and the cells between them are the same with and without the marks: a mark is
no pipe, no backslash stands before it, and what it is in is not blank.
-/

namespace Canonmark.SpacedDestination

open Source

theorem columns?_bracket {n : Nat} {hyphen fresh : Bool} {text : Text} (h : ']' ∈ text) :
    Table.separator?.columns? n hyphen fresh text = none := by
  fun_induction Table.separator?.columns? n hyphen fresh text with
  | case1 => simp at h
  | case2 n hyphen fresh rest ih => exact ih (by simpa using h)
  | case3 n hyphen fresh rest ih => exact ih (by simpa using h)
  | case4 n hyphen fresh rest ih => exact ih (by simpa using h)
  | case5 n fresh rest ih => exact ih (by simpa using h)
  | case6 => rfl
  | case7 => rfl

theorem takeWhile_inner {text : Text} {rest : Marked} (htext : ∀ c ∈ text, isInner c = true)
    (hends : rest = [] ∨ ∃ more, rest = ('\n', false) :: more) (wrapped : Bool) :
    (Marked.side wrapped (Marked.plain text ++ rest)).takeWhile isInner = text := by
  rw [Marked.side_append, Marked.side_plain, List.takeWhile_append_of_pos htext]
  rcases hends with rfl | ⟨more, rfl⟩ <;> simp [isInner]

theorem Ready.separator? {marked : Marked} (h : Ready marked) :
    (∀ wrapped, Table.separator? (marked.side wrapped) = Table.separator? (marked.side false)) ∧
      ∀ columns n, Table.separator? (marked.side false) = some (columns, n) → Clear n marked := by
  obtain ⟨indent, head, hleads, hside⟩ := @Head.takeUpTo (Head.start marked) h 4
  have hstart (wrapped : Bool) : (LineHead.start (marked.side wrapped)).takeUpTo 4 =
      (indent, head.side wrapped) := hside wrapped
  have hrest (wrapped : Bool) : (head.side wrapped).rest = Marked.side wrapped head.rest := rfl
  have htaken (wrapped : Bool) : (head.side wrapped).taken = head.taken := rfl
  have hempty := hleads.ready.isEmpty_side
  have hinner : (fun c : Char => decide (c ≠ '\n') && decide (c ≠ '\r')) = isInner := rfl
  rcases Woven.line_cases (.inr ⟨false, rfl⟩) hleads.ready with
    ⟨text, behind, hsplit, htext, hends, hready⟩ | hbracket
  · have hline (wrapped : Bool) : (Marked.side wrapped head.rest).takeWhile isInner = text := by
      rw [hsplit, takeWhile_inner htext hends]
    have hclear : Clear text.length head.rest := ⟨text, behind, rfl, hsplit, hready⟩
    have hdrop (wrapped : Bool) : (Marked.side wrapped head.rest).drop text.length =
        behind.side wrapped := by rw [hclear.drop_side, hsplit, Clear.drop_append]
    constructor
    · intro wrapped
      simp only [Table.separator?, hstart, hrest, htaken, hinner, hline, hdrop, hempty wrapped,
        hready.eol?.side wrapped]
    · intro columns n hn
      simp only [Table.separator?, hstart, hrest, htaken, hinner, hline, hdrop] at hn
      obtain ⟨-, hn⟩ := Option.ite_none_left_eq_some.mp hn
      obtain ⟨k, -, hn⟩ := Option.bind_eq_some_iff.mp hn
      obtain ⟨-, heq⟩ := Option.ite_none_right_eq_some.mp hn
      cases heq
      obtain ⟨m, hfirst, hmrest, hmtaken⟩ := hleads.clear
      have hending : Clear ((Source.eol? (behind.side false)).getD 0) behind := by
        cases heol : Source.eol? (behind.side false) with
        | none => exact Clear.zero hready
        | some k => exact hready.eol?.clear k heol
      have hstarted : (Head.start marked).taken = 0 := rfl
      rw [hmtaken, hstarted, Nat.zero_add, Nat.add_assoc]
      refine Clear.add hfirst ?_
      have hrest : (Head.start marked).rest = marked := rfl
      rw [hrest] at hmrest
      rw [← hmrest]
      refine hclear.add ?_
      rw [hsplit, Clear.drop_append]
      exact hending
  · have hnone (wrapped : Bool) : Table.separator? (marked.side wrapped) = none := by
      have hcells : ']' ∈ (if ((Marked.side wrapped head.rest).takeWhile isInner).head? = some '|'
          then ((Marked.side wrapped head.rest).takeWhile isInner).drop 1
          else (Marked.side wrapped head.rest).takeWhile isInner) := by
        have hmem := hbracket wrapped
        split
        · next hhead =>
            obtain ⟨rest, hrest⟩ := List.head?_eq_some_iff.mp hhead
            rw [hrest] at hmem ⊢
            simpa using hmem
        · exact hmem
      simp only [Table.separator?, hstart, hrest, hinner, columns?_bracket hcells]
      split <;> rfl
    exact ⟨fun wrapped => by rw [hnone, hnone], fun columns n hn => by rw [hnone] at hn; cases hn⟩

/-- No backslash stands in front of a mark, so none escapes what is behind it. -/
theorem Woven.pipes {phase : Phase} {marked : Marked} (h : Woven phase marked)
    (paired escaped : Bool) (hgap : phase = .gap → escaped = false)
    (hinside : ∀ onward, phase = .inside onward → escaped = true → onward = true) :
    ∃ n last phase', Woven phase' last ∧
      ∀ wrapped, Table.pipes paired escaped (marked.side wrapped) =
      (n, Marked.side wrapped last) := by
  induction marked generalizing phase escaped with
  | nil => exact ⟨0, [], .plain false, Ready.nil, fun wrapped => by simp [Table.pipes]⟩
  | cons mark rest ih =>
      obtain ⟨c, inserted⟩ := mark
      cases inserted with
      | true =>
          have hescaped : escaped = false := by
            rcases h.cons_true with ⟨hphase, -⟩ | ⟨hphase, -⟩
            · exact hgap hphase
            · exact Bool.eq_false_iff.mpr fun htrue => nomatch hinside false hphase htrue
          have hnext : ∃ n last phase', Woven phase' last ∧ ∀ wrapped,
              Table.pipes paired false (Marked.side wrapped rest) =
              (n, Marked.side wrapped last) := by
            rcases h.cons_true with ⟨-, -, -, hrest⟩ | ⟨-, -, -, hrest⟩ <;>
              exact ih hrest false (by simp) (by simp)
          obtain ⟨n, last, phase', hlast, hside⟩ := hnext
          have hmark : Table.pipes paired escaped (c :: Marked.side true rest) =
              Table.pipes paired false (Marked.side true rest) := by
            rw [hescaped]
            rcases h.angle with rfl | rfl <;> simp [Table.pipes]
          refine ⟨n, last, phase', hlast, fun wrapped => ?_⟩
          cases wrapped with
          | true => rw [Marked.side_cons_wrapped, hmark, hside]
          | false => rw [Marked.side_cons_kept, hescaped, hside]
      | false =>
          obtain ⟨-, hrest⟩ := (Woven.cons_false_iff _ _ _).mp h
          by_cases hend : (decide (c = '\n') || decide (c = '\r')) = true
          · exact ⟨0, [], .plain false, Ready.nil, fun wrapped => by simp [Table.pipes, hend]⟩
          obtain ⟨n, last, phase', hlast, hside⟩ := ih hrest (c = '\\' && !(paired && escaped))
            (fun hnext => by
              by_contra hback
              have hc : c = '\\' := by simp at hback; exact hback.1
              subst hc
              exact absurd hnext (Phase.next_backslash_ne_gap phase))
            (fun onward hnext hback => by
              have hc : c = '\\' := by simp at hback; exact hback.1
              subst hc
              exact Phase.next_backslash_inside hnext)
          by_cases hpipe : (decide (c = '|') && !escaped) = true
          · refine ⟨n + 1, if n = 0 then rest else last, if n = 0 then phase.next c else phase', ?_,
              fun wrapped => ?_⟩
            · split <;> assumption
            · rw [Marked.side_cons_false, Table.pipes, if_neg hend, hside]
              simp only [hpipe, if_true]
              split <;> rfl
          · refine ⟨n, last, phase', hlast, fun wrapped => ?_⟩
            rw [Marked.side_cons_false, Table.pipes, if_neg hend, hside]
            simp only [hpipe]
            rfl

theorem Ready.headColumns {marked last : Marked} {phase : Phase} (h : Ready marked)
    (hlast : Woven phase last) (n : Nat) (wrapped : Bool) :
    Table.headColumns (marked.side wrapped) n (last.side wrapped) =
      Table.headColumns (marked.side false) n (last.side false) := by
  obtain ⟨blanks, rest, -, hready, -, hside⟩ := h.run quiet_isBlank
  simp only [Table.headColumns, hside, hready.head?_side wrapped, hlast.isBlankLine wrapped]

/-- A line with pipes heads a table if the line behind it separates as many columns. -/
theorem Ready.tableHead?_eq {marked last : Marked} {phase : Phase} {n : Nat} {paired : Bool}
    (h : Ready marked) (hlast : Woven phase last) (hn : n ≠ 0) (hnewline : '\n' ∈ marked.side false)
    (hpipes : ∀ wrapped, Table.pipes paired false (marked.side wrapped) = (n, last.side wrapped))
    {containers : List Container} {inside : Bool} {head : Head} (hready : Ready head.rest)
    (hwithin : ∀ wrapped, LineHead.within containers (Marked.side wrapped (behindLine marked)) =
      (inside, head.side wrapped)) (wrapped : Bool) :
    Table.head? containers paired (marked.side wrapped) =
      if inside then
        (Table.separator? (Marked.side false head.rest)).bind fun found =>
          if found.1 = Table.headColumns (marked.side false) n (Marked.side false last) then
            some (Source.lineLength (marked.side wrapped) + head.taken + found.2,
              (Marked.side wrapped head.rest).drop found.2)
          else none
      else none := by
  have hinner : (fun c : Char => decide (c ≠ '\n') && decide (c ≠ '\r')) = isInner := rfl
  obtain ⟨hseparator, -⟩ := hready.separator?
  have hcolumns := h.headColumns hlast n
  have hending := ending_inner (Woven.carriageReturn h wrapped)
  simp only [h.newline_mem wrapped, hnewline, if_true] at hending
  have hlater : ¬(countWhile isInner (marked.side wrapped) + 1 =
    countWhile isInner (marked.side wrapped)) := by omega
  have hlength := countWhile_inner (Woven.carriageReturn h wrapped)
  rw [hending] at hlength
  have hdrop := Woven.drop_lineLength h wrapped
  rw [← hlength] at hdrop
  simp only [Table.head?, hpipes, hinner, hending, hn, hlater, hdrop, hwithin]
  cases inside with
  | false => simp
  | true => simp [Head.side, hseparator wrapped, hcolumns wrapped, hlength]

theorem Ready.tableHead? {marked : Marked} (h : Ready marked) (containers : List Container)
    (paired : Bool) :
    ∃ found : Option (Marked × Marked),
      (∀ passed rest, found = some (passed, rest) →
        Passes marked passed rest ∧ rest.length < marked.length) ∧
        ∀ wrapped, Table.head? containers paired (marked.side wrapped) =
          found.map fun (passed, rest) => ((passed.side wrapped).length, rest.side wrapped) := by
  obtain ⟨n, last, phase, hlast, hpipes⟩ := Woven.pipes h paired false (fun _ => rfl) (by simp)
  have hinner : (fun c : Char => decide (c ≠ '\n') && decide (c ≠ '\r')) = isInner := rfl
  by_cases hnone : n = 0 ∨ '\n' ∉ marked.side false
  · refine ⟨none, by simp, fun wrapped => ?_⟩
    have hending := ending_inner (Woven.carriageReturn h wrapped)
    simp only [h.newline_mem wrapped] at hending
    rcases hnone with rfl | hnewline
    · simp [Table.head?, hpipes]
    · simp only [hnewline, if_false] at hending
      simp only [Table.head?, hpipes, hinner, hending, Nat.add_zero, decide_true, Bool.or_true,
        if_true, Option.map_none]
  obtain ⟨hn, hnewline⟩ := not_or.mp hnone
  have hnewline := not_not.mp hnewline
  obtain ⟨inside, head, hleads, hwithin⟩ := (Woven.ready_behindLine h).within containers
  have hstep := h.tableHead?_eq hlast hn hnewline hpipes hleads.ready hwithin
  cases inside with
  | false => exact ⟨none, by simp, fun wrapped => by rw [hstep]; rfl⟩
  | true =>
  cases hfound : Table.separator? (Marked.side false head.rest) with
  | none => exact ⟨none, by simp, fun wrapped => by simp [hstep, hfound]⟩
  | some found =>
  obtain ⟨columns, length⟩ := found
  by_cases heq : columns = Table.headColumns (marked.side false) n (Marked.side false last)
  · have hclear := hleads.ready.separator?.2 columns length hfound
    obtain ⟨markers, hprefix, hlength⟩ := hleads.passes
    refine ⟨some (line marked ++ markers ++ head.rest.take length, head.rest.drop length),
      ?_, fun wrapped => ?_⟩
    · rintro passed rest hsome
      cases hsome
      have hshorter := hleads.shorter (fun hnil => by simp [hnil] at hnewline)
      refine ⟨((Passes.line h).trans hprefix).trans hclear.passes, ?_⟩
      rw [List.length_drop]
      omega
    · have hwidth := hlength wrapped
      simp only [Head.start, Nat.zero_add] at hwidth
      simp [hstep, hfound, heq, hclear.drop_side, hclear.length_take, hwidth,
        Woven.lineLength h wrapped, Nat.add_assoc]
  · exact ⟨none, by simp, fun wrapped => by simp [hstep, hfound, heq]⟩

end Canonmark.SpacedDestination
