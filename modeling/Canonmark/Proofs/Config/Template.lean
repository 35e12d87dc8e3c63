import Canonmark.Config.Template
import Canonmark.Proofs.Text.Basic

/-!
# References in templates

What a text with references is put together from, and what takes the place of each part. A text
without a brace behind a dollar sign is kept. In any other text, two dollar signs are one, and a
name behind a dollar sign refers to a variable without braces, too. So the references in braces
are all that is replaced exactly in those texts whose other dollar signs stand in front of neither.
-/

namespace Canonmark.Template

variable {text content rest : Text} {part : Part} {parts : List Part}
  {environment : Text → Option Text}

/-- What is referred to between braces: a default stands behind the first mark for one, if a name
is in front of it. -/
inductive Refers : Text → Part → Prop
  | name {name : Text} : (Text.hasInfix [':', '-'] name = true → [':', '-'] <+: name) →
      Refers name (.reference name none)
  | default {name default : Text} : name ≠ [] → Text.hasInfix [':', '-'] name = false →
      Refers (name ++ ':' :: '-' :: default) (.reference name (some default))

theorem splitDefault_append {name : Text} (hfirst : Text.hasInfix [':', '-'] name = false)
    (default : Text) : splitDefault (name ++ ':' :: '-' :: default) = some (name, default) := by
  induction name with
  | nil => rfl
  | cons c name ih =>
      rw [Text.hasInfix, Bool.or_eq_false_iff] at hfirst
      rw [List.cons_append, splitDefault, ih hfirst.2]
      · rfl
      · rintro behind rfl hsame
        cases name with
        | nil => exact absurd (List.cons.inj hsame).1 (by decide)
        | cons d name =>
            obtain ⟨rfl, -⟩ := List.cons.inj hsame
            exact absurd hfirst.1 (by simp)

theorem splitDefault_eq_none (hnone : Text.hasInfix [':', '-'] text = false) :
    splitDefault text = none := by
  induction text with
  | nil => rfl
  | cons c rest ih =>
      rw [Text.hasInfix, Bool.or_eq_false_iff] at hnone
      rw [splitDefault, ih hnone.2]
      · rfl
      · rintro behind rfl rfl
        exact absurd hnone.1 (by simp)

theorem exists_first (hsome : Text.hasInfix [':', '-'] text = true) :
    ∃ name default, text = name ++ ':' :: '-' :: default ∧
      Text.hasInfix [':', '-'] name = false := by
  induction text with
  | nil => exact absurd hsome (by decide)
  | cons c rest ih =>
      by_cases hhere : [':', '-'] <+: c :: rest
      · obtain ⟨default, hsame⟩ := hhere
        exact ⟨[], default, hsame.symm, rfl⟩
      · have hbehind : Text.hasInfix [':', '-'] rest = true := by
          rw [Text.hasInfix, Bool.or_eq_true, List.isPrefixOf_iff_prefix] at hsome
          exact hsome.resolve_left hhere
        obtain ⟨name, default, rfl, hfirst⟩ := ih hbehind
        refine ⟨c :: name, default, rfl, ?_⟩
        rw [Text.hasInfix, hfirst, Bool.or_false, ← Bool.not_eq_true, List.isPrefixOf_iff_prefix]
        exact fun hstarts => hhere (hstarts.trans (List.prefix_append (c :: name) _))

theorem refers_braced (content : Text) : Refers content (braced content) := by
  by_cases hsome : Text.hasInfix [':', '-'] content = true
  · obtain ⟨name, default, rfl, hfirst⟩ := exists_first hsome
    rw [braced, splitDefault_append hfirst]
    cases name with
    | nil => exact .name fun _ => ⟨default, rfl⟩
    | cons c name => exact .default (List.cons_ne_nil c name) hfirst
  · rw [Bool.not_eq_true] at hsome
    rw [braced, splitDefault_eq_none hsome]
    exact .name fun hfound => absurd (hsome.symm.trans hfound) (by decide)

theorem Refers.eq_braced (h : Refers content part) : part = braced content := by
  cases h with
  | @default name default hfilled hfirst =>
      obtain ⟨c, name, rfl⟩ := List.exists_cons_of_ne_nil hfilled
      rw [braced, splitDefault_append hfirst]
  | name hwhole =>
      by_cases hsome : Text.hasInfix [':', '-'] content = true
      · obtain ⟨default, rfl⟩ := hwhole hsome
        rw [List.cons_append, List.cons_append, List.nil_append, braced, splitDefault]
      · rw [braced, splitDefault_eq_none (by simpa using hsome)]

def Unbraced (behind : Text) : Prop := ∀ content rest, behind ≠ '\x7b' :: content ++ '\x7d' :: rest

/-- What a text is put together from when there is a brace behind a dollar sign in it. -/
inductive Reads : Text → List Part → Prop
  | nil : Reads [] []
  | plain {c : Char} {rest : Text} {parts : List Part} : c ≠ '$' → Reads rest parts →
      Reads (c :: rest) (.literal [c] :: parts)
  | braced {content rest : Text} {part : Part} {parts : List Part} : '\x7d' ∉ content →
      Refers content part → Reads rest parts →
        Reads ('$' :: '\x7b' :: content ++ '\x7d' :: rest) (part :: parts)
  | unclosed {rest : Text} {parts : List Part} : '\x7d' ∉ rest → Reads rest parts →
      Reads ('$' :: '\x7b' :: rest) (.literal ['$', '\x7b'] :: parts)
  | doubled {rest : Text} {parts : List Part} : Reads rest parts →
      Reads ('$' :: '$' :: rest) (.literal ['$'] :: parts)
  | named {name rest : Text} {parts : List Part} : name ≠ [] →
      (∀ c ∈ name, isNameCharacter c = true) → (∀ c ∈ rest.head?, isNameCharacter c = false) →
        Reads rest parts → Reads ('$' :: (name ++ rest)) (.reference name none :: parts)
  | lone {rest : Text} {parts : List Part} :
      (∀ c ∈ rest.head?, c ≠ '$' ∧ c ≠ '\x7b' ∧ isNameCharacter c = false) → Reads rest parts →
        Reads ('$' :: rest) (.literal ['$'] :: parts)

theorem partsFrom_drop (skip : Nat) (text : Text) :
    partsFrom skip text = partsFrom 0 (text.drop skip) := by
  induction text generalizing skip with
  | nil => cases skip <;> rfl
  | cons c rest ih =>
      cases skip with
      | zero => rfl
      | succ skip => exact ih skip

theorem partsFrom_dollar (behind : Text) :
    partsFrom 0 ('$' :: behind) =
      (behindDollar behind).1 :: partsFrom 0 (behind.drop (behindDollar behind).2) := by
  rw [partsFrom, if_pos rfl, ← partsFrom_drop]

theorem behindDollar_braced {content : Text} (hclosed : '\x7d' ∉ content) (rest : Text) :
    behindDollar ('\x7b' :: content ++ '\x7d' :: rest) = (braced content, content.length + 2) := by
  rw [List.cons_append, behindDollar, Text.splitAtFirst?_of_notMem hclosed]

theorem behindDollar_other (hother : ∀ c ∈ text.head?, c ≠ '$' ∧ c ≠ '\x7b') :
    behindDollar text =
      if (text.takeWhile isNameCharacter).isEmpty then (.literal ['$'], 0)
      else (.reference (text.takeWhile isNameCharacter) none,
        (text.takeWhile isNameCharacter).length) := by
  rw [behindDollar]
  · rintro rest rfl
    exact absurd rfl (hother _ rfl).2
  · rintro rest rfl
    exact absurd rfl (hother _ rfl).1

theorem partsFrom_braced (hclosed : '\x7d' ∉ content) (rest : Text) :
    partsFrom 0 ('$' :: '\x7b' :: content ++ '\x7d' :: rest) =
      braced content :: partsFrom 0 rest := by
  rw [List.cons_append, partsFrom_dollar, behindDollar_braced hclosed, List.cons_append,
    List.drop_succ_cons, List.drop_length_add_append]
  rfl

theorem partsFrom_unclosed (hunclosed : '\x7d' ∉ rest) :
    partsFrom 0 ('$' :: '\x7b' :: rest) = .literal ['$', '\x7b'] :: partsFrom 0 rest := by
  have hfound : behindDollar ('\x7b' :: rest) = (.literal ['$', '\x7b'], 1) := by
    rw [behindDollar, Text.splitAtFirst?_eq_none hunclosed]
  rw [partsFrom_dollar, hfound]
  rfl

theorem partsFrom_lone
    (hlone : ∀ c ∈ rest.head?, c ≠ '$' ∧ c ≠ '\x7b' ∧ isNameCharacter c = false) :
    partsFrom 0 ('$' :: rest) = .literal ['$'] :: partsFrom 0 rest := by
  have hunnamed : rest.takeWhile isNameCharacter = [] := by
    cases rest with
    | nil => rfl
    | cons c rest => simp [(hlone c rfl).2.2]
  rw [partsFrom_dollar, behindDollar_other fun c hmem => ⟨(hlone c hmem).1, (hlone c hmem).2.1⟩,
    hunnamed]
  rfl

theorem ne_of_isNameCharacter {c : Char} (h : isNameCharacter c = true) : c ≠ '$' ∧ c ≠ '\x7b' := by
  constructor
  · rintro rfl
    exact absurd h (by decide)
  · rintro rfl
    exact absurd h (by decide)

theorem partsFrom_named {name : Text} (hfilled : name ≠ [])
    (hnamed : ∀ c ∈ name, isNameCharacter c = true)
    (hstops : ∀ c ∈ rest.head?, isNameCharacter c = false) :
    partsFrom 0 ('$' :: (name ++ rest)) = .reference name none :: partsFrom 0 rest := by
  have hother : ∀ c ∈ (name ++ rest).head?, c ≠ '$' ∧ c ≠ '\x7b' := by
    intro c hmem
    rw [List.head?_append_of_ne_nil _ hfilled] at hmem
    exact ne_of_isNameCharacter (hnamed c (List.mem_of_mem_head? hmem))
  rw [partsFrom_dollar, behindDollar_other hother, Text.takeWhile_of_stop hnamed hstops,
    if_neg (by simpa using hfilled), List.drop_left]

theorem Reads.eq_partsFrom (h : Reads text parts) : partsFrom 0 text = parts := by
  induction h with
  | nil => rfl
  | plain hother _ ih => rw [partsFrom, if_neg hother, ih]
  | braced hclosed hrefers _ ih => rw [partsFrom_braced hclosed, ih, hrefers.eq_braced]
  | unclosed hunclosed _ ih => rw [partsFrom_unclosed hunclosed, ih]
  | doubled _ ih =>
      rw [← ih]
      rfl
  | named hfilled hnamed hstops _ ih => rw [partsFrom_named hfilled hnamed hstops, ih]
  | lone hlone _ ih => rw [partsFrom_lone hlone, ih]

theorem exists_reads (text : Text) : ∃ parts, Reads text parts := by
  induction hlength : text.length using Nat.strongRecOn generalizing text with
  | ind n ih =>
      cases text with
      | nil => exact ⟨[], .nil⟩
      | cons c behind =>
          by_cases hdollar : c = '$'
          case neg =>
            obtain ⟨parts, hlater⟩ := ih _ (by simp [← hlength]) behind rfl
            exact ⟨_, .plain hdollar hlater⟩
          subst hdollar
          by_cases hdouble : behind.head? = some '$'
          · obtain ⟨rest, rfl⟩ := List.head?_eq_some_iff.mp hdouble
            obtain ⟨parts, hlater⟩ := ih _ (by grind) rest rfl
            exact ⟨_, .doubled hlater⟩
          by_cases hbrace : behind.head? = some '\x7b'
          · obtain ⟨rest, rfl⟩ := List.head?_eq_some_iff.mp hbrace
            by_cases hclosed : '\x7d' ∈ rest
            · obtain ⟨content, after, rfl, hfirst⟩ := List.eq_append_cons_of_mem hclosed
              obtain ⟨parts, hlater⟩ := ih _ (by grind) after rfl
              exact ⟨_, .braced hfirst (refers_braced content) hlater⟩
            · obtain ⟨parts, hlater⟩ := ih _ (by grind) rest rfl
              exact ⟨_, .unclosed hclosed hlater⟩
          obtain ⟨name, rest, rfl, hnamed, hstops⟩ := Text.exists_run isNameCharacter behind
          obtain ⟨parts, hlater⟩ := ih _ (by grind) rest rfl
          by_cases hfilled : name = []
          · subst hfilled
            refine ⟨_, .lone (fun c hmem => ⟨?_, ?_, hstops c hmem⟩) hlater⟩
            · exact fun hsame => hdouble (hsame ▸ hmem)
            · exact fun hsame => hbrace (hsame ▸ hmem)
          · exact ⟨_, .named hfilled hnamed hstops hlater⟩

/-- Every text is put together from parts in one way only, and these are the parts it is taken
for. -/
theorem reads_iff : Reads text parts ↔ partsFrom 0 text = parts := by
  refine ⟨Reads.eq_partsFrom, ?_⟩
  rintro rfl
  obtain ⟨parts, hreads⟩ := exists_reads text
  exact hreads.eq_partsFrom ▸ hreads

/-! ## What takes the place of parts -/

def Part.value? (environment : Text → Option Text) : Part → Option Text
  | .literal text => some text
  | .reference name default => (environment name).or default

theorem expandPart_cases (environment : Text → Option Text) (part : Part) :
    (∃ value, part.value? environment = some value ∧ expandPart environment part = .ok value) ∨
      ∃ name, part = .reference name none ∧ environment name = none ∧
        expandPart environment part = .error name := by
  cases part with
  | literal text => exact .inl ⟨text, rfl, rfl⟩
  | reference name default =>
      cases hfound : environment name with
      | some value =>
          exact .inl ⟨value, by simp [Part.value?, hfound], by simp [expandPart, hfound]⟩
      | none =>
          cases default with
          | some value =>
              exact .inl ⟨value, by simp [Part.value?, hfound], by simp [expandPart, hfound]⟩
          | none => exact .inr ⟨name, rfl, hfound, by simp [expandPart, hfound]⟩

theorem expandParts_ok {value : Text} (h : expandPart environment part = .ok value)
    (parts : List Part) :
    expandParts environment (part :: parts) = (expandParts environment parts).map (value ++ ·) := by
  rw [expandParts, h]
  cases expandParts environment parts <;> rfl

theorem expandParts_error {name : Text} (h : expandPart environment part = .error name)
    (parts : List Part) : expandParts environment (part :: parts) = .error name := by
  rw [expandParts, h]
  rfl

theorem expandParts_cases (environment : Text → Option Text) (parts : List Part) :
    (∃ values : List Text, parts.map (Part.value? environment) = values.map some ∧
      expandParts environment parts = .ok values.flatten) ∨
    ∃ before name after, parts = before ++ .reference name none :: after ∧
      (∀ part ∈ before, (part.value? environment).isSome = true) ∧ environment name = none ∧
      expandParts environment parts = .error name := by
  induction parts with
  | nil => exact .inl ⟨[], rfl, rfl⟩
  | cons part parts ih =>
      rcases expandPart_cases environment part with ⟨value, hknown, hrun⟩
        | ⟨name, rfl, hunset, hrun⟩
      · rw [expandParts_ok hrun]
        rcases ih with ⟨values, hall, hlater⟩ | ⟨before, name, after, rfl, hall, hunset, hlater⟩
        · refine .inl ⟨value :: values, ?_, by rw [hlater]; rfl⟩
          rw [List.map_cons, List.map_cons, hknown, hall]
        · refine .inr ⟨part :: before, name, after, rfl, ?_, hunset, by rw [hlater]; rfl⟩
          exact List.forall_mem_cons.mpr ⟨by rw [hknown]; rfl, hall⟩
      · exact .inr ⟨[], name, parts, rfl, by simp, hunset, expandParts_error hrun parts⟩

/-- A text expands exactly if each variable without a default that it refers to is set. -/
theorem isOk_expandParts_iff :
    (∃ result, expandParts environment parts = .ok result) ↔
      ∀ name, .reference name none ∈ parts → (environment name).isSome = true := by
  rcases expandParts_cases environment parts with
    ⟨values, hall, hrun⟩ | ⟨before, name, after, rfl, -, hunset, hrun⟩
  · refine ⟨fun _ name hmem => ?_, fun _ => ⟨_, hrun⟩⟩
    have hknown := hall ▸ List.mem_map_of_mem hmem
    obtain ⟨value, -, hsame⟩ := List.mem_map.mp hknown
    rw [Part.value?, Option.or_none] at hsame
    rw [← hsame]
    rfl
  · constructor
    · rintro ⟨result, hok⟩
      exact absurd (hrun.symm.trans hok) (by simp)
    · intro hset
      exact absurd (hset name (by simp)) (by simp [hunset])

theorem expandParts_congr {known : Text → Option Text}
    (hsame : ∀ name default, .reference name default ∈ parts → known name = environment name) :
    expandParts known parts = expandParts environment parts := by
  induction parts with
  | nil => rfl
  | cons part parts ih =>
      have hfirst : expandPart known part = expandPart environment part := by
        cases part with
        | literal => rfl
        | reference name default => simp only [expandPart, hsame name default List.mem_cons_self]
      rw [expandParts, expandParts, hfirst,
        ih fun name default hmem => hsame name default (List.mem_cons_of_mem _ hmem)]

theorem expand_congr {known : Text → Option Text}
    (hsame : ∀ name ∈ references text, known name = environment name) :
    expand known text = expand environment text :=
  expandParts_congr fun name _ hmem =>
    hsame name (List.mem_filterMap.mpr ⟨_, hmem, rfl⟩)

theorem expandParts_literal (text : Text) (parts : List Part) :
    expandParts environment (.literal text :: parts) =
      (expandParts environment parts).map (text ++ ·) :=
  expandParts_ok rfl parts

/-! ## Texts in which only braces refer -/

/-- What a text is put together from when nothing but a reference in braces is more than a
character. -/
inductive ReadsBraces : Text → List Part → Prop
  | nil : ReadsBraces [] []
  | braced {content rest : Text} {part : Part} {parts : List Part} : '\x7d' ∉ content →
      Refers content part → ReadsBraces rest parts →
        ReadsBraces ('$' :: '\x7b' :: content ++ '\x7d' :: rest) (part :: parts)
  | copied {c : Char} {rest : Text} {parts : List Part} : (c = '$' → Unbraced rest) →
      ReadsBraces rest parts → ReadsBraces (c :: rest) (.literal [c] :: parts)

/-- A dollar sign that is not that of a reference in braces stands in front of neither a name nor
another dollar sign. -/
inductive Solitary : Text → Prop
  | nil : Solitary []
  | other {c : Char} {rest : Text} : c ≠ '$' → Solitary rest → Solitary (c :: rest)
  | braced {content rest : Text} : '\x7d' ∉ content → Solitary rest →
      Solitary ('$' :: '\x7b' :: content ++ '\x7d' :: rest)
  | dollar {rest : Text} : (∀ c ∈ rest.head?, c ≠ '$' ∧ isNameCharacter c = false) →
      Unbraced rest → Solitary rest → Solitary ('$' :: rest)

theorem closed_unique {content content' rest rest' : Text} (hclosed : '\x7d' ∉ content)
    (hclosed' : '\x7d' ∉ content')
    (hsame : content ++ '\x7d' :: rest = content' ++ '\x7d' :: rest') :
    content = content' ∧ rest = rest' := by
  have hfirst := Text.splitAtFirst?_of_notMem hclosed rest
  rw [hsame, Text.splitAtFirst?_of_notMem hclosed' rest'] at hfirst
  simpa using hfirst.symm

theorem unbraced_iff {behind : Text} :
    Unbraced ('\x7b' :: behind) ↔ '\x7d' ∉ behind := by
  constructor
  · intro hunbraced hmem
    obtain ⟨content, rest, rfl, -⟩ := List.eq_append_cons_of_mem hmem
    exact hunbraced content rest rfl
  · rintro hclosed content rest hsame
    rw [(List.cons.inj hsame).2] at hclosed
    exact hclosed (by simp)

theorem exists_braced {behind : Text} (h : ¬ Unbraced behind) :
    ∃ content rest, behind = '\x7b' :: content ++ '\x7d' :: rest ∧ '\x7d' ∉ content := by
  simp only [Unbraced, ne_eq, not_forall, not_not] at h
  obtain ⟨content, rest, rfl⟩ := h
  have hsome : '\x7d' ∈ content ++ '\x7d' :: rest := by simp
  obtain ⟨inner, after, hsame, hclosed⟩ := List.eq_append_cons_of_mem hsome
  exact ⟨inner, after, congrArg ('\x7b' :: ·) hsame, hclosed⟩

theorem ReadsBraces.braced_inv (h : ReadsBraces ('$' :: '\x7b' :: content ++ '\x7d' :: rest) parts)
    (hclosed : '\x7d' ∉ content) :
    ∃ behind, parts = Template.braced content :: behind ∧ ReadsBraces rest behind := by
  generalize hsame : '$' :: '\x7b' :: content ++ '\x7d' :: rest = text at h
  cases h with
  | nil => exact absurd hsame (List.cons_ne_nil _ _)
  | braced hclosed' hrefers hlater =>
      simp only [List.cons_append, List.cons.injEq, true_and] at hsame
      obtain ⟨rfl, rfl⟩ := closed_unique hclosed hclosed' hsame
      exact ⟨_, congrArg (· :: _) hrefers.eq_braced, hlater⟩
  | copied hunbraced hlater =>
      obtain ⟨rfl, rfl⟩ := List.cons.inj hsame
      exact absurd rfl (hunbraced rfl content rest)

theorem ReadsBraces.copied_inv {c : Char} (h : ReadsBraces (c :: rest) parts)
    (hunbraced : c = '$' → Unbraced rest) :
    ∃ behind, parts = .literal [c] :: behind ∧ ReadsBraces rest behind := by
  generalize hsame : c :: rest = text at h
  cases h with
  | nil => exact absurd hsame (List.cons_ne_nil _ _)
  | @braced content' rest' _ _ hclosed hrefers hlater =>
      obtain ⟨rfl, rfl⟩ := List.cons.inj hsame
      exact absurd rfl (hunbraced rfl content' rest')
  | copied _ hlater =>
      obtain ⟨rfl, rfl⟩ := List.cons.inj hsame
      exact ⟨_, rfl, hlater⟩

theorem exists_readsBraces (text : Text) : ∃ parts, ReadsBraces text parts := by
  induction hlength : text.length using Nat.strongRecOn generalizing text with
  | ind n ih =>
      cases text with
      | nil => exact ⟨[], .nil⟩
      | cons c behind =>
          by_cases hunbraced : c = '$' → Unbraced behind
          · obtain ⟨parts, hlater⟩ := ih _ (by simp [← hlength]) behind rfl
            exact ⟨_, .copied hunbraced hlater⟩
          · obtain ⟨rfl, hbraced⟩ := Classical.not_imp.mp hunbraced
            obtain ⟨content, rest, rfl, hclosed⟩ := exists_braced hbraced
            obtain ⟨parts, hlater⟩ := ih _ (by grind) rest rfl
            exact ⟨_, .braced hclosed (refers_braced content) hlater⟩

theorem unbraced_of_head (h : rest.head? ≠ some '\x7b') : Unbraced rest := by
  rintro content behind rfl
  exact h rfl

theorem Solitary.expandParts_eq (h : Solitary text) (hbraces : ReadsBraces text parts) :
    expandParts environment (partsFrom 0 text) = expandParts environment parts := by
  induction h generalizing parts with
  | nil =>
      cases hbraces
      rfl
  | other hother _ ih =>
      obtain ⟨behind, rfl, hlater⟩ := hbraces.copied_inv fun hdollar => absurd hdollar hother
      rw [partsFrom, if_neg hother, expandParts_literal, expandParts_literal, ih hlater]
  | braced hclosed _ ih =>
      obtain ⟨behind, rfl, hlater⟩ := hbraces.braced_inv hclosed
      rw [partsFrom_braced hclosed, expandParts, expandParts, ih hlater]
  | @dollar rest halone hunbraced _ ih =>
      obtain ⟨behind, rfl, hlater⟩ := hbraces.copied_inv fun _ => hunbraced
      by_cases hbrace : rest.head? = some '\x7b'
      · -- A brace that is not closed is one part with its dollar sign, or two that say the same.
        obtain ⟨inner, rfl⟩ := List.head?_eq_some_iff.mp hbrace
        have hsplit : partsFrom 0 ('\x7b' :: inner) = .literal ['\x7b'] :: partsFrom 0 inner := by
          rw [partsFrom, if_neg (by decide)]
        have honward := ih hlater
        rw [hsplit, expandParts_literal] at honward
        rw [partsFrom_unclosed (unbraced_iff.mp hunbraced), expandParts_literal,
          expandParts_literal, ← honward]
        cases expandParts environment (partsFrom 0 inner) <;> rfl
      · have hlone : ∀ c ∈ rest.head?, c ≠ '$' ∧ c ≠ '\x7b' ∧ isNameCharacter c = false :=
          fun c hmem => ⟨(halone c hmem).1, fun hsame => hbrace (hsame ▸ hmem), (halone c hmem).2⟩
        rw [partsFrom_lone hlone, expandParts_literal, expandParts_literal, ih hlater]

def Part.filled (value : Text) : Part → Text
  | .literal text => text
  | .reference _ _ => value

theorem expandParts_filled (value : Text) (parts : List Part) :
    expandParts (fun _ => some value) parts = .ok (parts.flatMap (Part.filled value)) := by
  induction parts with
  | nil => rfl
  | cons part parts ih =>
      have hfirst : expandPart (fun _ => some value) part = .ok (part.filled value) := by
        cases part with
        | literal => rfl
        | reference _ default => cases default <;> rfl
      rw [expandParts_ok hfirst, ih]
      rfl

theorem filled_braced (value content : Text) : (Template.braced content).filled value = value := by
  unfold Template.braced
  split <;> rfl

/-- Fillings of all parts with a letter, which no dollar sign can take the place of. -/
def filledAll (parts : List Part) : Text := parts.flatMap (Part.filled ['a'])

theorem filledAll_cons (part : Part) (parts : List Part) :
    filledAll (part :: parts) = part.filled ['a'] ++ filledAll parts := List.flatMap_cons

theorem replicate_append_dollar (k : Nat) (text : Text) :
    List.replicate k '$' ++ '$' :: text = '$' :: (List.replicate k '$' ++ text) := by
  induction k with
  | zero => rfl
  | succ k ih => rw [List.replicate_succ, List.cons_append, ih, List.cons_append]

theorem Reads.filledAll_brace (hreads : Reads ('\x7b' :: rest) parts) :
    (filledAll parts).head? = some '\x7b' := by
  rw [← hreads.eq_partsFrom, partsFrom, if_neg (by decide), filledAll_cons]
  rfl

theorem Reads.filledAll_ne {parts' : List Part} (hreads : Reads text parts)
    (hbraces : ReadsBraces text parts') (k : Nat) :
    filledAll parts ≠ '$' :: (List.replicate k '$' ++ filledAll parts') := by
  intro hsame
  induction hreads generalizing parts' k with
  | nil => cases hsame
  | plain hother _ _ => exact hother (List.cons.inj hsame).1
  | braced _ hrefers _ _ =>
      rw [hrefers.eq_braced, filledAll_cons, filled_braced] at hsame
      exact absurd (List.cons.inj hsame).1 (by decide)
  | unclosed hunclosed _ _ =>
      obtain ⟨behind, rfl, -⟩ := hbraces.copied_inv fun _ => unbraced_iff.mpr hunclosed
      have hsecond := (List.cons.inj hsame).2
      rw [filledAll_cons, Part.filled, List.singleton_append, replicate_append_dollar] at hsecond
      exact absurd (List.cons.inj hsecond).1 (by decide)
  | @doubled rest _ hreads ih =>
      obtain ⟨more, rfl, hbehind⟩ := hbraces.copied_inv fun _ => unbraced_of_head (by simp)
      have hsecond := (List.cons.inj hsame).2
      rw [filledAll_cons, Part.filled, List.singleton_append, replicate_append_dollar] at hsecond
      by_cases hunbraced : Unbraced rest
      · obtain ⟨more, rfl, hlater⟩ := hbehind.copied_inv fun _ => hunbraced
        rw [filledAll_cons, Part.filled, List.singleton_append, replicate_append_dollar,
          ← List.cons_append, ← List.replicate_succ] at hsecond
        exact ih hlater (k + 1) hsecond
      · obtain ⟨content, after, rfl, -⟩ := exists_braced hunbraced
        exact absurd (hreads.filledAll_brace.symm.trans (congrArg List.head? hsecond)) (by simp)
  | named _ _ _ _ _ => exact absurd (List.cons.inj hsame).1 (by decide)
  | lone hlone _ ih =>
      obtain ⟨behind, rfl, hlater⟩ := hbraces.copied_inv fun _ =>
        unbraced_of_head fun hbrace => (hlone _ hbrace).2.1 rfl
      have hsecond := (List.cons.inj hsame).2
      rw [filledAll_cons, Part.filled, List.singleton_append, replicate_append_dollar] at hsecond
      exact ih hlater k hsecond

theorem Reads.solitary {parts' : List Part} (hreads : Reads text parts)
    (hbraces : ReadsBraces text parts') (hsame : filledAll parts = filledAll parts') :
    Solitary text := by
  induction hreads generalizing parts' with
  | nil => exact .nil
  | plain hother _ ih =>
      obtain ⟨behind, rfl, hlater⟩ := hbraces.copied_inv fun hdollar => absurd hdollar hother
      exact .other hother (ih hlater (List.cons.inj hsame).2)
  | braced hclosed hrefers _ ih =>
      obtain ⟨behind, rfl, hlater⟩ := hbraces.braced_inv hclosed
      rw [hrefers.eq_braced, filledAll_cons, filledAll_cons, List.append_cancel_left_eq] at hsame
      exact .braced hclosed (ih hlater hsame)
  | unclosed hunclosed _ ih =>
      have hunbraced := unbraced_iff.mpr hunclosed
      obtain ⟨more, rfl, hbehind⟩ := hbraces.copied_inv fun _ => hunbraced
      obtain ⟨more, rfl, hlater⟩ := hbehind.copied_inv fun hdollar => absurd hdollar (by decide)
      have hrest := ih hlater (List.cons.inj (List.cons.inj hsame).2).2
      refine .dollar (fun c hmem => ?_) hunbraced (.other (by decide) hrest)
      cases hmem
      exact ⟨by decide, by decide⟩
  | @doubled rest _ hreads ih =>
      obtain ⟨more, rfl, hbehind⟩ := hbraces.copied_inv fun _ => unbraced_of_head (by simp)
      have hsecond := (List.cons.inj hsame).2
      by_cases hunbraced : Unbraced rest
      · obtain ⟨more, rfl, hlater⟩ := hbehind.copied_inv fun _ => hunbraced
        exact absurd hsecond (hreads.filledAll_ne hlater 0)
      · obtain ⟨content, after, rfl, hclosed⟩ := exists_braced hunbraced
        obtain ⟨more, rfl, -⟩ := hbehind.braced_inv hclosed
        have hletter : (filledAll (Template.braced content :: more)).head? = some 'a' := by
          rw [filledAll_cons, filled_braced]
          rfl
        exact absurd (hreads.filledAll_brace.symm.trans ((congrArg List.head? hsecond).trans
          hletter)) (by decide)
  | @named name _ _ hfilled hnamed _ _ _ =>
      obtain ⟨c, name, rfl⟩ := List.exists_cons_of_ne_nil hfilled
      have hfirst := ne_of_isNameCharacter (hnamed c List.mem_cons_self)
      obtain ⟨behind, rfl, -⟩ := hbraces.copied_inv fun _ => unbraced_of_head (by simp [hfirst.2])
      exact absurd (List.cons.inj hsame).1 (by decide)
  | lone hlone _ ih =>
      have hunbraced : Unbraced _ := unbraced_of_head fun hbrace => (hlone _ hbrace).2.1 rfl
      obtain ⟨behind, rfl, hlater⟩ := hbraces.copied_inv fun _ => hunbraced
      exact .dollar (fun c hmem => ⟨(hlone c hmem).1, (hlone c hmem).2.2⟩) hunbraced
        (ih hlater (List.cons.inj hsame).2)

theorem expand_kept (h : Text.hasInfix ['$', '\x7b'] text = false) :
    expand environment text = .ok text := by
  rw [expand, parse, h, if_neg (by decide), expandParts_literal]
  exact congrArg Except.ok (List.append_nil text)

theorem ReadsBraces.expandParts_kept (hbraces : ReadsBraces text parts)
    (h : Text.hasInfix ['$', '\x7b'] text = false) : expandParts environment parts = .ok text := by
  induction hbraces with
  | nil => rfl
  | braced => exact absurd h (by simp [Text.hasInfix])
  | copied _ _ ih =>
      rw [Text.hasInfix, Bool.or_eq_false_iff] at h
      rw [expandParts_literal, ih h.2]
      rfl

/-- In every environment, the references in braces are all that is replaced exactly if there are
none, or if the other dollar signs stand alone. -/
theorem expand_braces_iff (hbraces : ReadsBraces text parts) :
    (∀ environment, expand environment text = expandParts environment parts) ↔
      Text.hasInfix ['$', '\x7b'] text = false ∨ Solitary text := by
  by_cases hsome : Text.hasInfix ['$', '\x7b'] text = true
  case neg =>
    have hnone := Bool.eq_false_iff.mpr hsome
    exact ⟨fun _ => .inl hnone, fun _ _ =>
      (expand_kept hnone).trans (hbraces.expandParts_kept hnone).symm⟩
  have hread (environment : Text → Option Text) :
      expand environment text = expandParts environment (partsFrom 0 text) := by
    rw [expand, parse, if_pos hsome]
  simp only [hread, hsome, Bool.true_eq_false, false_or]
  constructor
  · intro hsame
    have hfilled := hsame fun _ => some ['a']
    rw [expandParts_filled, expandParts_filled] at hfilled
    exact (reads_iff.mpr rfl).solitary hbraces (Except.ok.inj hfilled)
  · exact fun halone _ => halone.expandParts_eq hbraces

example : expand (fun _ => some "v".toList) "$A/$$/${A}".toList = .ok "v/$/v".toList := by decide

end Canonmark.Template
