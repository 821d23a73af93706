/-
  Settings in writing: a TOML document with a region and a table of audio settings.

  Writing and reading TOML is left to a library (`Toml.Library`); what is said here is which document stands
  for settings (`toDocument`), and which settings a document stands for (`ofEntries?`).  What a document
  leaves out keeps its default, and what it says besides is ignored, as long as it can be understood at all.
  The audio settings may be given in order instead of by name.
-/
import Famicom.Settings.Basic
import Famicom.Toml.Library

namespace Famicom

/-- Why settings cannot be read or written. -/
inductive SettingsError where
  /-- They cannot be got at, or are no text. -/
  | unreadable
  /-- The document is malformed, or says something other than settings. -/
  | malformed
  /-- There is no document for them. -/
  | unwritable
  /-- They make no sense. -/
  | invalid (e : InvalidSetting)
  deriving DecidableEq, Repr

namespace Settings

open Toml (Value)

/-! ## Writing -/

/-- The document that stands for settings. -/
def toDocument (s : Settings) : Toml.Document where
  fields := [("region", .text s.region.key)]
  tables := [("audio", [("sample_rate", .whole s.audio.sampleRate.toNat),
    ("buffer_samples", .whole s.audio.bufferSamples.toNat),
    ("cycle_length", .whole s.audio.cycleLength.toNat)])]

/-- Settings in writing, if the library can write them. -/
def toText (lib : Toml.Library) (s : Settings) : Except SettingsError String :=
  match lib.write? s.toDocument with
  | some text => .ok text
  | none => .error .unwritable

/-! ## Reading -/

/-- A whole number below a bound. -/
def wholeBelow? (bound : Nat) : Value → Option Nat
  | .integer (some n) => if 0 ≤ n ∧ n < bound then some n.toNat else none
  | _ => none

/-- A region: its name, or a table in which the name stands for nothing. -/
def region? : Value → Option Region
  | .string name => Region.ofKey? name
  | .table [(name, .table [])] => Region.ofKey? name
  | .table [(name, .array [])] => Region.ofKey? name
  | _ => none

mutual

/-- Whether a value that is ignored could be understood: its integers are numbers of at most 128 bits,
    its floats are within range. -/
def isUnderstood : Value → Bool
  | .integer none => false
  | .integer (some n) => -Int.ofNat (1 <<< 127) ≤ n && n < Int.ofNat (1 <<< 128)
  | .float inRange => inRange
  | .array items => allUnderstood items
  | .table entries => entriesUnderstood entries
  | _ => true

/-- Whether all of them could be. -/
def allUnderstood : List Value → Bool
  | [] => true
  | v :: rest => isUnderstood v && allUnderstood rest

/-- Whether all values of a table could be. -/
def entriesUnderstood : List (String × Value) → Bool
  | [] => true
  | (_, v) :: rest => isUnderstood v && entriesUnderstood rest

end

/-- Sets an audio setting by its name. -/
def setAudio? (a : MixerSettings) (name : String) (v : Value) : Option MixerSettings :=
  match name with
  | "sample_rate" => (wholeBelow? (1 <<< 32) v).map fun n => { a with sampleRate := .ofNat n }
  | "buffer_samples" => (wholeBelow? (1 <<< 64) v).map fun n => { a with bufferSamples := .ofNat n }
  | "cycle_length" => (wholeBelow? (1 <<< 32) v).map fun n => { a with cycleLength := .ofNat n }
  | _ => if isUnderstood v then some a else none

/-- The names of the audio settings, in order. -/
def audioNames : List String := ["sample_rate", "buffer_samples", "cycle_length"]

/-- Audio settings, by name or in order. -/
def audio? : Value → Option MixerSettings
  | .table entries => entries.foldlM (fun a (name, v) => setAudio? a name v) {}
  | .array items => (audioNames.zip items).foldlM (fun a (name, v) => setAudio? a name v) {}
  | .moment => some {}
  | _ => none

/-- Sets a setting by its name. -/
def set? (s : Settings) (name : String) (v : Value) : Option Settings :=
  match name with
  | "region" => (region? v).map fun region => { s with region }
  | "audio" => (audio? v).map fun audio => { s with audio }
  | _ => if isUnderstood v then some s else none

/-- The settings that a document stands for. -/
def ofEntries? (entries : List (String × Value)) : Option Settings :=
  entries.foldlM (fun s (name, v) => set? s name v) {}

/-- The settings in a text, if they make sense. -/
def ofText (lib : Toml.Library) (text : String) : Except SettingsError Settings :=
  match (lib.read? text).bind ofEntries? with
  | none => .error .malformed
  | some s =>
    match s.check with
    | .ok _ => .ok s
    | .error e => .error (.invalid e)

/-- The settings in the bytes of a text. -/
def ofBytes (lib : Toml.Library) (bytes : ByteArray) : Except SettingsError Settings :=
  match String.fromUTF8? bytes with
  | some text => ofText lib text
  | none => .error .unreadable

end Settings

end Famicom
