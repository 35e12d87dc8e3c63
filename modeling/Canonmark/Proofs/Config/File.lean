import Canonmark.Config.File

/-!
# What configuration files say

A document is a configuration exactly if its sections are tables or arrays, what it says about a
switch is a boolean, and the paths of its catalogs are an array of texts. Each switch is what the
document says, and what it does not say is the default.
-/

namespace Canonmark.ConfigFile

open Toml (Value Entries)

inductive Switch where
  | compactHeadings
  | spacedDestinations
  | tables
  | strikethrough
  | tasklists
  | footnotes
  | frontMatter
  deriving DecidableEq, Repr

inductive Topic where
  | markup
  | parser
  | xref
  deriving DecidableEq, Repr

namespace Topic

def name : Topic → String
  | markup => "markup"
  | parser => "parser"
  | xref => "xref"

def keys : Topic → List String
  | markup => ["legacy_mode", "lenient_link_destinations"]
  | parser => ["tables", "strikethrough", "tasklists", "footnotes", "front_matter"]
  | xref => ["maps"]

end Topic

namespace Switch

def topic : Switch → Topic
  | compactHeadings | spacedDestinations => .markup
  | tables | strikethrough | tasklists | footnotes | frontMatter => .parser

def key : Switch → String
  | compactHeadings => "legacy_mode"
  | spacedDestinations => "lenient_link_destinations"
  | tables => "tables"
  | strikethrough => "strikethrough"
  | tasklists => "tasklists"
  | footnotes => "footnotes"
  | frontMatter => "front_matter"

def value (settings : Settings) : Switch → Bool
  | compactHeadings => settings.compactHeadings
  | spacedDestinations => settings.spacedDestinations
  | tables => settings.extensions.tables
  | strikethrough => settings.extensions.strikethrough
  | tasklists => settings.extensions.tasklists
  | footnotes => settings.extensions.footnotes
  | frontMatter => settings.extensions.frontMatter

theorem key_mem_keys (switch : Switch) : switch.key ∈ switch.topic.keys := by
  cases switch <;> decide

end Switch

variable {entries : Entries} {file : ConfigFile} {fields : Section} {key : String}
  {keys : List String} {topic : Topic}

def said? (entries : Entries) (topic : Topic) (key : String) : Option Value :=
  match entries.lookup topic.name.toList with
  | some (.table _ fields) => fields.lookup key.toList
  | some (.array _ items) => items[topic.keys.idxOf key]?
  | _ => none

def IsSection : Option Value → Prop
  | none | some (.table _ _) | some (.array _ _) => True
  | _ => False

/-- What is said is as the file has it, and everything else has its default. -/
structure Describes (entries : Entries) (file : ConfigFile) : Prop where
  sections (topic : Topic) : IsSection (entries.lookup topic.name.toList)
  switches (switch : Switch) :
    match said? entries switch.topic switch.key with
    | none => switch.value file.settings = switch.value {}
    | some given => given = .boolean (switch.value file.settings)
  maps :
    match said? entries .xref "maps" with
    | none => file.maps = []
    | some given => ∃ ofHeaders, given = .array ofHeaders (file.maps.map .string)

theorem bind_eq_ok_iff {ε α β : Type} {first : Except ε α} {next : α → Except ε β} {result : β} :
    (first >>= next) = .ok result ↔ ∃ value, first = .ok value ∧ next value = .ok result := by
  cases first <;> simp [bind, Except.bind]

theorem lookup_zip (hmem : key ∈ keys) (items : List Value) :
    (keys.zip items).lookup key = items[keys.idxOf key]? := by
  induction keys generalizing items with
  | nil => cases hmem
  | cons other keys ih =>
      cases items with
      | nil => simp
      | cons item items =>
          rw [List.zip_cons_cons, List.lookup_cons, List.idxOf_cons]
          by_cases hsame : key = other
          · subst hsame
            simp
          · rw [beq_eq_false_iff_ne.mpr hsame, beq_eq_false_iff_ne.mpr (Ne.symm hsame)]
            exact ih ((List.mem_cons.mp hmem).resolve_left hsame) items

theorem readSection_ok (h : readSection entries topic.name topic.keys = .ok fields) :
    IsSection (entries.lookup topic.name.toList) ∧
      ∀ key ∈ topic.keys, fields key = said? entries topic key := by
  rw [readSection] at h
  unfold said?
  cases hfound : entries.lookup topic.name.toList with
  | none =>
      rw [hfound] at h
      cases h
      exact ⟨trivial, fun _ _ => rfl⟩
  | some value =>
      rw [hfound] at h
      cases value with
      | table origin inner =>
          cases h
          exact ⟨trivial, fun _ _ => rfl⟩
      | array ofHeaders items =>
          cases h
          exact ⟨trivial, fun key hmem => lookup_zip hmem items⟩
      | string | integer | float | boolean | dateTime => cases h

theorem exists_readSection (h : IsSection (entries.lookup topic.name.toList)) :
    ∃ fields, readSection entries topic.name topic.keys = .ok fields := by
  rw [readSection]
  cases hfound : entries.lookup topic.name.toList with
  | none => exact ⟨_, rfl⟩
  | some value =>
      rw [hfound] at h
      cases value with
      | table | array => exact ⟨_, rfl⟩
      | string | integer | float | boolean | dateTime => exact h.elim

theorem flag_eq_ok_iff {default value : Bool} :
    flag fields key default = .ok value ↔
      match fields key with
      | none => value = default
      | some given => given = .boolean value := by
  rw [flag]
  cases fields key with
  | none => simp [eq_comm]
  | some given => cases given <;> simp

theorem mapM_text_eq_ok_iff {items : List Value} {paths : List Text} :
    items.mapM text = .ok paths ↔ items = paths.map .string := by
  induction items generalizing paths with
  | nil => cases paths <;> simp [pure, Except.pure]
  | cons item items ih =>
      rw [List.mapM_cons]
      simp only [bind_eq_ok_iff, ih]
      constructor
      · rintro ⟨path, hfirst, rest, rfl, hsame⟩
        cases hsame
        cases item <;> cases hfirst
        rfl
      · intro hsame
        cases paths with
        | nil => cases hsame
        | cons path paths =>
            obtain ⟨rfl, rfl⟩ := List.cons.inj hsame
            exact ⟨path, rfl, paths, rfl, rfl⟩

theorem texts_eq_ok_iff {paths : List Text} :
    texts fields key = .ok paths ↔
      match fields key with
      | none => paths = []
      | some given => ∃ ofHeaders, given = .array ofHeaders (paths.map .string) := by
  rw [texts]
  cases fields key with
  | none => simp [eq_comm]
  | some given => cases given <;> simp [mapM_text_eq_ok_iff]

theorem ofEntries_eq_ok_iff :
    ofEntries entries = .ok file ↔
      ∃ fields : Topic → Section,
        (∀ topic, readSection entries topic.name topic.keys = .ok (fields topic)) ∧
        (∀ switch : Switch, flag (fields switch.topic) switch.key (switch.value {}) =
          .ok (switch.value file.settings)) ∧
        texts (fields .xref) "maps" = .ok file.maps := by
  simp only [ofEntries, readExtensions, bind_eq_ok_iff]
  constructor
  · rintro ⟨markup, hreadMarkup, compact, hcompact, spaced, hspaced, extensions,
      ⟨parser, hreadParser, tables, htables, struck, hstruck, tasks, htasks, notes, hnotes,
        matter, hmatter, hmade⟩, xref, hreadXref, maps, hmaps, hsame⟩
    cases hmade
    cases hsame
    refine ⟨fun | .markup => markup | .parser => parser | .xref => xref, ?_, ?_, hmaps⟩
    · intro topic
      cases topic with
      | markup => exact hreadMarkup
      | parser => exact hreadParser
      | xref => exact hreadXref
    · intro switch
      cases switch with
      | compactHeadings => exact hcompact
      | spacedDestinations => exact hspaced
      | tables => exact htables
      | strikethrough => exact hstruck
      | tasklists => exact htasks
      | footnotes => exact hnotes
      | frontMatter => exact hmatter
  · rintro ⟨fields, hread, hswitches, hmaps'⟩
    exact ⟨_, hread .markup, _, hswitches .compactHeadings, _, hswitches .spacedDestinations, _,
      ⟨_, hread .parser, _, hswitches .tables, _, hswitches .strikethrough, _, hswitches .tasklists,
        _, hswitches .footnotes, _, hswitches .frontMatter, rfl⟩, _, hread .xref, _, hmaps', rfl⟩

theorem describes_of_ofEntries (h : ofEntries entries = .ok file) : Describes entries file := by
  obtain ⟨fields, hread, hswitches, hmaps⟩ := ofEntries_eq_ok_iff.mp h
  refine ⟨fun topic => (readSection_ok (hread topic)).1, fun switch => ?_, ?_⟩
  · rw [← (readSection_ok (hread _)).2 _ switch.key_mem_keys]
    exact flag_eq_ok_iff.mp (hswitches switch)
  · rw [← (readSection_ok (hread .xref)).2 _ (List.mem_singleton_self _)]
    exact texts_eq_ok_iff.mp hmaps

theorem ofEntries_of_describes (h : Describes entries file) : ofEntries entries = .ok file := by
  obtain ⟨fields, hread⟩ :=
    Classical.axiomOfChoice fun topic => exists_readSection (h.sections topic)
  refine ofEntries_eq_ok_iff.mpr ⟨fields, hread, fun switch => ?_, ?_⟩
  · rw [flag_eq_ok_iff, (readSection_ok (hread _)).2 _ switch.key_mem_keys]
    exact h.switches switch
  · rw [texts_eq_ok_iff, (readSection_ok (hread .xref)).2 _ (List.mem_singleton_self _)]
    exact h.maps

example : ofEntries [("markup".toList, .array false [.boolean true])] =
    .ok ⟨{ compactHeadings := true }, []⟩ := rfl

/-- The files that are read are the documents that describe one. -/
theorem parse_eq_ok_iff {source : Text} :
    parse source = .ok file ↔
      ∃ entries, Entries.parse source = .ok entries ∧ Describes entries file := by
  rw [parse]
  cases Entries.parse source with
  | error => simp
  | ok entries =>
      simp only [Except.ok.injEq, exists_eq_left']
      exact ⟨describes_of_ofEntries, ofEntries_of_describes⟩

end Canonmark.ConfigFile
