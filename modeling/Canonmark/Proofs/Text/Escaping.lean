import Canonmark.Proofs.Text.Entity

/-!
# Escapes

A backslash in front of ASCII punctuation stands for that character, and any other backslash
stands for itself. The reader resolves escapes together with character references; where there
are no references, it does what is said here about escapes alone.
-/

namespace Canonmark.Escape

open Entity

def unescape : Text → Text
  | [] => []
  | [c] => [c]
  | c :: d :: rest =>
      if c = '\\' && Ascii.isPunctuation d then d :: unescape rest
      else c :: unescape (d :: rest)

def firstUnescaped? (p : Char → Bool) : Text → Option Nat
  | [] => none
  | [c] => if p c then some 0 else none
  | c :: d :: rest =>
      if c = '\\' && Ascii.isPunctuation d then (firstUnescaped? p rest).map (· + 2)
      else if p c then some 0
      else (firstUnescaped? p (d :: rest)).map (· + 1)

theorem unescape_cons {c : Char} (h : c ≠ '\\') (rest : Text) :
    unescape (c :: rest) = c :: unescape rest := by
  cases rest with
  | nil => rfl
  | cons d rest => simp [unescape, h]

theorem unescape_escaped {d : Char} (h : Ascii.isPunctuation d = true) (rest : Text) :
    unescape ('\\' :: d :: rest) = d :: unescape rest := by
  simp [unescape, h]

theorem unescape_backslash {d : Char} (h : Ascii.isPunctuation d = false) (rest : Text) :
    unescape ('\\' :: d :: rest) = '\\' :: unescape (d :: rest) := by
  simp [unescape, h]

theorem firstUnescaped?_cons {p : Char → Bool} {c : Char} (hbackslash : c ≠ '\\') (h : p c = false)
    (rest : Text) : firstUnescaped? p (c :: rest) = (firstUnescaped? p rest).map (· + 1) := by
  cases rest with
  | nil => simp [firstUnescaped?, h]
  | cons d rest => simp [firstUnescaped?, hbackslash, h]

theorem firstUnescaped?_found {p : Char → Bool} {c : Char} (hbackslash : c ≠ '\\') (h : p c = true)
    (rest : Text) : firstUnescaped? p (c :: rest) = some 0 := by
  cases rest with
  | nil => simp [firstUnescaped?, h]
  | cons d rest => simp [firstUnescaped?, hbackslash, h]

theorem firstUnescaped?_escaped {p : Char → Bool} {d : Char} (h : Ascii.isPunctuation d = true)
    (rest : Text) :
    firstUnescaped? p ('\\' :: d :: rest) = (firstUnescaped? p rest).map (· + 2) := by
  simp [firstUnescaped?, h]

theorem firstUnescaped?_backslash {p : Char → Bool} {d : Char} (h : Ascii.isPunctuation d = false)
    (hbackslash : p '\\' = false) (rest : Text) :
    firstUnescaped? p ('\\' :: d :: rest) = (firstUnescaped? p (d :: rest)).map (· + 1) := by
  simp [firstUnescaped?, h, hbackslash]

theorem resolveFrom_backslash {d : Char} (h : Ascii.isPunctuation d = false) (rest : Text) :
    resolveFrom 0 ('\\' :: d :: rest) = '\\' :: resolveFrom 0 (d :: rest) := by
  rw [resolveFrom.eq_def]
  simp [h]

theorem resolveFrom_escaped {d : Char} (h : Ascii.isPunctuation d = true) (rest : Text) :
    resolveFrom 0 ('\\' :: d :: rest) = d :: resolveFrom 0 rest := by
  rw [resolveFrom.eq_def]
  simp [h, resolveFrom]

theorem resolveFrom_ampersand {rest : Text} (h : reference? rest = none) :
    resolveFrom 0 ('&' :: rest) = '&' :: resolveFrom 0 rest := by
  rw [resolveFrom.eq_def]
  simp [h]

theorem resolveFrom_cons {c : Char} (hbackslash : c ≠ '\\') (hampersand : c ≠ '&') (h : c ≠ '\r')
    (rest : Text) : resolveFrom 0 (c :: rest) = c :: resolveFrom 0 rest := by
  rw [resolveFrom.eq_def]
  simp [hbackslash, hampersand, h]

/-- Where no reference is resolved and no carriage return dropped, only escapes are undone. -/
theorem resolve_eq_unescape {text : Text} (hliteral : absent text = true) (hline : '\r' ∉ text) :
    resolve text = unescape text := by
  unfold resolve
  have hsingle {c : Char} {rest : Text} (hbackslash : c ≠ '\\')
      (hliteral : absent (c :: rest) = true) (hline : c ≠ '\r') :
      resolveFrom 0 (c :: rest) = c :: resolveFrom 0 rest := by
    by_cases hampersand : c = '&'
    · subst hampersand
      simp only [absent, Bool.and_eq_true] at hliteral
      exact resolveFrom_ampersand (by simpa using hliteral.1)
    · exact resolveFrom_cons hbackslash hampersand hline rest
  fun_induction unescape text with
  | case1 => rfl
  | case2 c =>
      by_cases hbackslash : c = '\\'
      · subst hbackslash
        rfl
      · exact hsingle hbackslash hliteral fun h => hline (h ▸ List.mem_cons_self)
  | case3 c d rest hescaped ih =>
      simp only [Bool.and_eq_true, decide_eq_true_eq] at hescaped
      obtain ⟨rfl, hpunctuation⟩ := hescaped
      simp only [absent, Bool.and_eq_true] at hliteral
      rw [resolveFrom_escaped hpunctuation,
        ih hliteral.2.2 fun hmem => hline (List.mem_cons_of_mem _ (List.mem_cons_of_mem _ hmem))]
  | case4 c d rest hplain ih =>
      have honward := ih (Bool.and_eq_true_iff.mp hliteral).2 fun hmem =>
        hline (List.mem_cons_of_mem _ hmem)
      by_cases hbackslash : c = '\\'
      · subst hbackslash
        rw [resolveFrom_backslash (by simpa using hplain), honward]
      · rw [hsingle hbackslash hliteral fun h => hline (h ▸ List.mem_cons_self), honward]

end Canonmark.Escape
