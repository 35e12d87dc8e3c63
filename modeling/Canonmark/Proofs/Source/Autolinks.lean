import Canonmark.Proofs.Source.Closing

/-!
# Addresses and URIs between angle brackets

What may stand between the brackets of an autolink, as two grammars: a mail address is a local
part, an at sign and a domain, which consists of labels between dots; a URI is a scheme, a colon
and characters without white space and brackets. The reader finds exactly these.
-/

namespace Canonmark.Source.Autolink

def isLabelChar (c : Char) : Bool := Ascii.isLetterOrDigit c || c = '-'

/-- Up to 63 letters, digits and hyphens, with no hyphen at either end. -/
structure IsLabel (label : Text) : Prop where
  some : label ≠ []
  short : label.length ≤ 63
  chars : ∀ c ∈ label, isLabelChar c = true
  first : label.head? ≠ .some '-'
  last : label.getLast? ≠ .some '-'

inductive IsDomain : Text → Prop
  | label {label : Text} (hlabel : IsLabel label) : IsDomain label
  | dot {label rest : Text} (hlabel : IsLabel label) (hdomain : IsDomain rest) :
      IsDomain (label ++ '.' :: rest)

inductive IsAddress : Text → Prop
  | intro {localPart domain : Text} (hsome : localPart ≠ [])
      (hchars : ∀ c ∈ localPart, isLocal c = true) (hdomain : IsDomain domain) :
      IsAddress (localPart ++ '@' :: domain)

def isSchemeChar (c : Char) : Bool :=
  Ascii.isLetterOrDigit c || c = '.' || c = '-' || c = '+'

def isPathChar (c : Char) : Bool := ' ' < c && c ≠ '<' && c ≠ '>'

/-- Up to 32 characters in front of the first colon, and any number behind it. -/
inductive IsUri : Text → Prop
  | intro {first : Char} {scheme path : Text} (hletter : Ascii.isLetter first = true)
      (hchars : ∀ c ∈ scheme, isSchemeChar c = true) (hsome : 1 ≤ scheme.length)
      (hshort : scheme.length ≤ 31) (hvisible : ∀ c ∈ path, isPathChar c = true) :
      IsUri (first :: scheme ++ ':' :: path)

theorem isDomainLabel_iff {label : Text} : isDomainLabel label = true ↔ IsLabel label := by
  have hends (c : Char) (his : isLabelChar c = true) :
      Ascii.isLetterOrDigit c = true ↔ c ≠ '-' := by
    refine ⟨fun halnum hhyphen => ?_, fun hother => ?_⟩
    · subst hhyphen
      exact absurd halnum (by decide)
    · simpa [isLabelChar, hother] using his
  simp only [isDomainLabel, Bool.and_eq_true, decide_eq_true_eq, List.all_eq_true]
  refine ⟨fun ⟨⟨⟨hshort, hfirst⟩, hlast⟩, hchars⟩ => ?_, fun h => ⟨⟨⟨h.short, ?_⟩, ?_⟩, h.chars⟩⟩
  · have hchars : ∀ c ∈ label, isLabelChar c = true := hchars
    obtain ⟨c, hfront, halnum⟩ := Option.any_eq_true _ _ |>.mp hfirst
    obtain ⟨d, hback, halnum'⟩ := Option.any_eq_true _ _ |>.mp hlast
    refine ⟨?_, hshort, hchars, fun hhyphen => ?_, fun hhyphen => ?_⟩
    · rintro rfl
      cases hfront
    · cases hfront.symm.trans hhyphen
      exact absurd halnum (by decide)
    · cases hback.symm.trans hhyphen
      exact absurd halnum' (by decide)
  · obtain ⟨c, rest, rfl⟩ := List.exists_cons_of_ne_nil h.some
    have hother : c ≠ '-' := fun hhyphen => h.first (by rw [hhyphen]; rfl)
    exact (hends c (h.chars c List.mem_cons_self)).mpr hother
  · obtain ⟨body, c, rfl⟩ := List.eq_nil_or_concat label |>.resolve_left h.some
    have hlast := h.last
    have hchars := h.chars
    simp only [List.concat_eq_append, List.getLast?_concat] at hlast hchars ⊢
    have hother : c ≠ '-' := fun hhyphen => hlast (by rw [hhyphen])
    exact (hends c (hchars c (by simp))).mpr hother

def StopsDomain (behind : Text) : Prop := ∀ c ∈ behind.head?, isLabelChar c = false ∧ c ≠ '.'

theorem domain?_dot {label : Text} (h : IsLabel label) (rest : Text) (fuel : Nat) :
    domain? (fuel + 1) (label ++ '.' :: rest) = (domain? fuel rest).map (· + label.length + 1) := by
  have hread : (label ++ '.' :: rest).takeWhile isLabelChar = label :=
    Text.takeWhile_of_stop h.chars fun c hhere => by cases hhere; decide
  rw [domain?]
  change (label ++ '.' :: rest).takeWhile (fun c => Ascii.isLetterOrDigit c || c = '-') = label
    at hread
  simp only [hread, isDomainLabel_iff.mpr h, List.drop_left, Bool.not_true, Bool.false_eq_true,
    if_false]

theorem domain?_label {label behind : Text} (h : IsLabel label) (hstops : StopsDomain behind)
    (fuel : Nat) : domain? (fuel + 1) (label ++ behind) = some label.length := by
  have hread : (label ++ behind).takeWhile isLabelChar = label :=
    Text.takeWhile_of_stop h.chars fun c hhere => (hstops c hhere).1
  rw [domain?]
  change (label ++ behind).takeWhile (fun c => Ascii.isLetterOrDigit c || c = '-') = label at hread
  simp only [hread, isDomainLabel_iff.mpr h, List.drop_left, Bool.not_true, Bool.false_eq_true,
    if_false]
  split
  · exact absurd rfl (hstops '.' rfl).2
  · rfl

theorem domain?_of_isDomain {domain behind : Text} (h : IsDomain domain)
    (hstops : StopsDomain behind) {fuel : Nat} (henough : domain.length < fuel) :
    domain? fuel (domain ++ behind) = some domain.length := by
  obtain ⟨fuel, rfl⟩ := Nat.exists_eq_add_one_of_ne_zero (Nat.ne_zero_of_lt henough)
  induction h generalizing fuel with
  | label hlabel => exact domain?_label hlabel hstops fuel
  | @dot label rest hlabel hdomain ih =>
      simp only [List.length_append, List.length_cons] at henough
      obtain ⟨fuel, rfl⟩ := Nat.exists_eq_add_one_of_ne_zero (show fuel ≠ 0 by omega)
      have hsize : (label ++ '.' :: rest).length = rest.length + label.length + 1 := by
        rw [List.length_append, List.length_cons]
        omega
      rw [hsize, List.append_assoc, List.cons_append, domain?_dot hlabel, ih fuel (by omega)]
      rfl

theorem isDomain_of_domain? {fuel n : Nat} {text : Text} (h : domain? fuel text = some n) :
    ∃ domain behind, text = domain ++ behind ∧ domain.length = n ∧ IsDomain domain := by
  induction fuel generalizing text n with
  | zero => cases h
  | succ fuel ih =>
      unfold domain? at h
      extract_lets label at h
      have hwhole : text = label ++ text.drop label.length := eq_takeWhile_append rfl
      split at h
      · cases h
      next hlabel =>
      have hlabel : IsLabel label := isDomainLabel_iff.mp (by simpa using hlabel)
      split at h
      · next rest hfound =>
          obtain ⟨m, hread, rfl⟩ := Option.map_eq_some_iff.mp h
          obtain ⟨domain, behind, rfl, rfl, hdomain⟩ := ih hread
          refine ⟨label ++ '.' :: domain, behind, ?_, ?_, .dot hlabel hdomain⟩
          · rw [hwhole, hfound, List.append_assoc, List.cons_append]
          · rw [List.length_append, List.length_cons]
            omega
      · cases h
        exact ⟨label, _, hwhole, rfl, .label hlabel⟩

theorem take_address (localPart domain behind : Text) :
    (localPart ++ '@' :: (domain ++ behind)).take (localPart.length + 1 + domain.length) =
      localPart ++ '@' :: domain := by
  have hwhole : localPart ++ '@' :: (domain ++ behind) =
      (localPart ++ '@' :: domain) ++ behind := by simp
  have hsize : localPart.length + 1 + domain.length = (localPart ++ '@' :: domain).length := by
    simp only [List.length_append, List.length_cons]
    omega
  rw [hwhole, hsize, List.take_left]

theorem address?_of_isAddress {address : Text} (h : IsAddress address) (behind : Text) :
    address? (address ++ '>' :: behind) = some address := by
  cases h with
  | @intro localPart domain hsome hchars hdomain =>
  have hread : (localPart ++ '@' :: (domain ++ '>' :: behind)).takeWhile isLocal = localPart :=
    Text.takeWhile_of_stop hchars fun c hhere => by cases hhere; decide
  have hstops : StopsDomain ('>' :: behind) := fun c hhere => by cases hhere; decide
  have henough : domain.length < (domain ++ '>' :: behind).length + 1 := by
    rw [List.length_append]
    omega
  have hfound := domain?_of_isDomain hdomain hstops henough
  rw [List.append_assoc, List.cons_append, address?]
  simp only [hread, List.isEmpty_eq_false_iff.mpr hsome, List.drop_left, hfound, take_address,
    Bool.false_eq_true, if_false]

/-- An address is found exactly where one stands in front of a closing bracket. -/
theorem address?_eq_some_iff {text address : Text} :
    address? text = some address ↔
      IsAddress address ∧ ∃ behind, text = address ++ '>' :: behind := by
  refine ⟨fun h => ?_, fun ⟨haddress, behind, hwhole⟩ => ?_⟩
  · unfold address? at h
    extract_lets localPart at h
    split at h
    · cases h
    next hsome =>
    have hsome : localPart ≠ [] := by simpa using hsome
    have hchars : ∀ c ∈ localPart, isLocal c = true := fun c hmem => List.mem_takeWhile_imp hmem
    split at h
    · next rest hfound =>
        have hwhole : text = localPart ++ '@' :: rest := eq_takeWhile_append hfound
        split at h
        · cases h
        next n hread =>
        obtain ⟨domain, rest, rfl, rfl, hdomain⟩ := isDomain_of_domain? hread
        rw [List.drop_left] at h
        split at h
        · next behind =>
            cases h
            rw [hwhole, take_address]
            exact ⟨.intro hsome hchars hdomain, behind, by simp⟩
        · cases h
    · cases h
  · rw [hwhole]
    exact address?_of_isAddress haddress behind

theorem uri?_of_isUri {uri : Text} (h : IsUri uri) (behind : Text) :
    uri? (uri ++ '>' :: behind) = some uri := by
  cases h with
  | @intro first scheme path hletter hchars hsome hshort hvisible =>
  have hshape : first :: scheme ++ ':' :: path ++ '>' :: behind =
      first :: (scheme ++ ':' :: (path ++ '>' :: behind)) := by simp
  have hnamed : (scheme ++ ':' :: (path ++ '>' :: behind)).takeWhile isSchemeChar = scheme :=
    Text.takeWhile_of_stop hchars fun c hhere => by cases hhere; decide
  have hwritten : (path ++ '>' :: behind).takeWhile isPathChar = path :=
    Text.takeWhile_of_stop hvisible fun c hhere => by cases hhere; decide
  unfold isSchemeChar at hnamed
  unfold isPathChar at hwritten
  rw [hshape, uri?]
  simp only [hletter, hnamed, hwritten, List.drop_left, hsome, hshort, Bool.not_true,
    Bool.false_eq_true, decide_true, Bool.and_self, if_false, if_true]

theorem uri?_eq_some_iff {text uri : Text} :
    uri? text = some uri ↔ IsUri uri ∧ ∃ behind, text = uri ++ '>' :: behind := by
  refine ⟨fun h => ?_, fun ⟨huri, behind, hwhole⟩ => ?_⟩
  · rw [uri?.eq_def] at h
    split at h
    · cases h
    next first rest =>
    split at h
    · cases h
    next hletter =>
    extract_lets scheme at h
    split at h
    · next tail hcolon =>
        split at h
        · next hsized =>
            extract_lets path at h
            split at h
            · next behind hbracket =>
                cases h
                rw [Bool.and_eq_true, decide_eq_true_eq, decide_eq_true_eq] at hsized
                refine ⟨.intro (by simpa using hletter) (fun c hmem => List.mem_takeWhile_imp hmem)
                  hsized.1 hsized.2 (fun c hmem => List.mem_takeWhile_imp hmem), behind, ?_⟩
                conv_lhs => rw [eq_takeWhile_append hcolon, eq_takeWhile_append hbracket]
                simp [scheme, path]
            · cases h
        · cases h
    · cases h
  · rw [hwhole]
    exact uri?_of_isUri huri behind

theorem isLocal_of_isSchemeChar {c : Char} (h : isSchemeChar c = true) : isLocal c = true := by
  simp only [isSchemeChar, Bool.or_eq_true, decide_eq_true_eq] at h
  rcases h with ((halnum | rfl) | rfl) | rfl
  · rw [isLocal, halnum, Bool.true_or]
  · decide
  · decide
  · decide

theorem isLocal_of_isLabelChar {c : Char} (h : isLabelChar c = true) : isLocal c = true := by
  simp only [isLabelChar, Bool.or_eq_true, decide_eq_true_eq] at h
  rcases h with halnum | rfl
  · rw [isLocal, halnum, Bool.true_or]
  · decide

theorem IsDomain.isLocal {domain : Text} (h : IsDomain domain) :
    ∀ c ∈ domain, isLocal c = true := by
  induction h with
  | label hlabel => exact fun c hmem => isLocal_of_isLabelChar (hlabel.chars c hmem)
  | dot hlabel _ ih =>
      refine List.forall_mem_append.mpr ⟨fun c hmem => ?_, List.forall_mem_cons.mpr ⟨by decide, ih⟩⟩
      exact isLocal_of_isLabelChar (hlabel.chars c hmem)

theorem IsAddress.notMem {address : Text} (h : IsAddress address) {c : Char}
    (hother : isLocal c = false) (hnotAt : c ≠ '@') : c ∉ address := by
  cases h with
  | @intro localPart domain hsome hchars hdomain =>
  intro hmem
  rcases List.mem_append.mp hmem with hinLocal | _ | ⟨_, hinDomain⟩
  · exact absurd (hchars c hinLocal) (by simp [hother])
  · exact hnotAt rfl
  · exact absurd (hdomain.isLocal c hinDomain) (by simp [hother])

theorem IsUri.notMem {uri : Text} (h : IsUri uri) {c : Char} (hother : isLocal c = false)
    (hnotPath : isPathChar c = false) : c ∉ uri := by
  cases h with
  | @intro first scheme path hletter hchars hsome hshort hvisible =>
  intro hmem
  rcases List.mem_append.mp hmem with (_ | ⟨_, hinScheme⟩) | _ | ⟨_, hinPath⟩
  · simp [isLocal, Ascii.isLetterOrDigit, hletter] at hother
  · exact absurd (isLocal_of_isSchemeChar (hchars c hinScheme)) (by simp [hother])
  · exact absurd hnotPath (by decide)
  · exact absurd (hvisible c hinPath) (by simp [hnotPath])

end Canonmark.Source.Autolink
