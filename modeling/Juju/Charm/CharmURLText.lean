import Juju.Charm.CharmURLGrammar

namespace Juju.Charm
open Juju.Lib

/-- The printed form of a revision is a run of decimal digits in texts of any kind. -/
theorem toDigits_decimal (k : TextKind) (n : Nat) :
    k.isdigit (Nat.toDigits 10 n) = true ∧ ∀ x ∈ Nat.toDigits 10 n, k.decimal x ≠ none :=
  ascii_isdigit k _ Nat.toDigits_ne_nil (TextKind.toDigits_isDigit n)

theorem revisionNumber_toDigits (k : TextKind) (n : Nat) :
    revisionNumber k (some (Nat.toDigits 10 n)) = some (n : Int) := by
  have hread := k.natural_ascii _ Nat.toDigits_ne_nil (TextKind.toDigits_isDigit n)
  simp [revisionNumber, hread]

/-- A revision that has been read is a natural number. -/
theorem revisionNumber_cases (k : TextKind) (revision : Option Text) :
    revisionNumber k revision = none ∨ ∃ n : Nat, revisionNumber k revision = some (n : Int) := by
  cases revision with
  | none => exact Or.inl rfl
  | some digits =>
    cases hn : k.natural digits with
    | none =>
      left
      simp [revisionNumber, hn]
    | some n => exact Or.inr ⟨n, by simp [revisionNumber, hn]⟩

/-- What is parsed is printed as its parts. -/
theorem toText_parts (schema : Text) (user : Option Text) (series name : Text)
    (revision : Option Nat) :
    CharmURL.toText ⟨⟨schema, user, series⟩, name, revision.map Int.ofNat⟩ =
      headText schema user series ++ nameText name (revision.map (Nat.toDigits 10)) := by
  cases revision with
  | none => simp [CharmURL.toText, CharmCollection.toText, headText, nameText]
  | some n => simp [CharmURL.toText, CharmCollection.toText, headText, nameText, intText]

/-- A URL that comes from a text of one kind is read back from its printed form in any kind. -/
theorem parse_toText (k k' : TextKind) (string : Text) (url : CharmURL)
    (h : CharmURL.parse k string = .ok url) : CharmURL.parse k' url.toText = .ok url := by
  rcases parse_outcome k string with ⟨message, hfail⟩ |
    ⟨schema, user, series, name, revision, hhead, -, -, -, ⟨hvalue, -⟩ | ⟨hname, -, hok⟩⟩
  · rw [hfail] at h
    cases h
  · rw [hvalue] at h
    cases h
  · rw [hok] at h
    obtain rfl := Except.ok.inj h
    rcases revisionNumber_cases k revision with hnone | ⟨n, hn⟩
    · have hparse := parse_accepts k' schema user series name none hhead hname (by simp)
      have htext := toText_parts schema user series name none
      rw [hnone]
      rw [Option.map_none, Option.map_none] at htext
      rw [← htext] at hparse
      exact hparse
    · have hparse := parse_accepts k' schema user series name (some (Nat.toDigits 10 n)) hhead
        hname (by simpa using toDigits_decimal k' n)
      have htext := toText_parts schema user series name (some n)
      rw [revisionNumber_toDigits] at hparse
      rw [hn]
      rw [Option.map_some, Option.map_some] at htext
      rw [← htext] at hparse
      exact hparse

/-- `infer` returns only what `parse` has accepted. -/
theorem infer_parsed (k kSeries : TextKind) (vagueName defaultSeries : Text) (url : CharmURL)
    (h : CharmURL.infer k vagueName kSeries defaultSeries = .ok url) :
    ∃ kind string, CharmURL.parse kind string = .ok url := by
  unfold CharmURL.infer at h
  split at h
  · rename_i url' hparse
    obtain rfl := Except.ok.inj h
    exact ⟨k, vagueName, hparse⟩
  · cases h
  · split at h
    · cases h
    · dsimp only at h
      split at h
      · cases h
      · exact ⟨_, _, h⟩

theorem infer_of_parse (k kSeries : TextKind) (string series : Text) (url : CharmURL)
    (h : CharmURL.parse k string = .ok url) :
    CharmURL.infer k string kSeries series = .ok url := by
  simp [CharmURL.infer, h]

/-- Parsing, printing and inferring agree. -/
theorem CharmURL.round_trip :
    (∀ k string url, CharmURL.parse k string = .ok url →
      ∀ k', CharmURL.parse k' url.toText = .ok url) ∧
    (∀ k₁ k₂ string₁ string₂ url₁ url₂, CharmURL.parse k₁ string₁ = .ok url₁ →
      CharmURL.parse k₂ string₂ = .ok url₂ → url₁.toText = url₂.toText → url₁ = url₂) ∧
    ∀ k kSeries vagueName defaultSeries url,
      CharmURL.infer k vagueName kSeries defaultSeries = .ok url →
      ∀ k', CharmURL.parse k' url.toText = .ok url ∧
        ∀ kSeries' series, CharmURL.infer k' url.toText kSeries' series = .ok url := by
  refine ⟨?_, ?_, ?_⟩
  · exact fun k string url h k' => parse_toText k k' string url h
  · intro k₁ k₂ string₁ string₂ url₁ url₂ h₁ h₂ hsame
    have hback := parse_toText k₁ .bytes string₁ url₁ h₁
    rw [hsame, parse_toText k₂ .bytes string₂ url₂ h₂] at hback
    exact (Except.ok.inj hback).symm
  · intro k kSeries vagueName defaultSeries url h k'
    obtain ⟨kind, string, hparse⟩ := infer_parsed k kSeries vagueName defaultSeries url h
    have hback := parse_toText kind k' string url hparse
    exact ⟨hback, fun kSeries' series => infer_of_parse k' kSeries' _ series url hback⟩

/-- A leading zero is dropped on the way, and a series that was inferred stays. -/
theorem CharmURL.round_trip_zero :
    CharmURL.parse .unicode "cs:precise/foo-007".toList =
        .ok ⟨⟨cs, none, "precise".toList⟩, "foo".toList, some 7⟩ ∧
      CharmURL.parse .bytes
          (CharmURL.toText ⟨⟨cs, none, "precise".toList⟩, "foo".toList, some 7⟩) =
        .ok ⟨⟨cs, none, "precise".toList⟩, "foo".toList, some 7⟩ ∧
      CharmURL.infer .bytes
          (CharmURL.toText ⟨⟨cs, none, "precise".toList⟩, "foo".toList, some 7⟩) .bytes
          "oneiric".toList =
        .ok ⟨⟨cs, none, "precise".toList⟩, "foo".toList, some 7⟩ := by
  have hparse : CharmURL.parse .unicode "cs:precise/foo-007".toList =
      .ok ⟨⟨cs, none, "precise".toList⟩, "foo".toList, some 7⟩ := by decide
  have hinfer : CharmURL.infer .bytes "foo-007".toList .bytes "precise".toList =
      .ok ⟨⟨cs, none, "precise".toList⟩, "foo".toList, some 7⟩ := by decide
  exact ⟨hparse, CharmURL.round_trip.1 .unicode _ _ hparse .bytes,
    (CharmURL.round_trip.2.2 .bytes .bytes _ _ _ hinfer .bytes).2 .bytes _⟩

end Juju.Charm
