/-
  What a console is set up with, and which settings make sense.

  Main statement: `Settings.check` accepts exactly the settings under which sound can be produced at
  all (`check_eq_ok_iff`).
-/
import Famicom.Mixer

namespace Famicom

/-- The settings of a console. -/
structure Settings where
  region : Region := .ntsc
  audio : MixerSettings := {}
  deriving DecidableEq, Repr, Inhabited

/-- A setting that makes no sense. -/
inductive InvalidSetting where
  /-- No samples per second. -/
  | sampleRate
  /-- No room for samples. -/
  | bufferSamples
  /-- An audio frame of fewer than two cycles. -/
  | cycleLength (cycles : UInt32)
  deriving DecidableEq, Repr

namespace InvalidSetting

/-- Which setting is wrong, and why. -/
def reason : InvalidSetting → String
  | sampleRate => "audio.sample_rate must be greater than zero"
  | bufferSamples => "audio.buffer_samples must be greater than zero"
  | cycleLength cycles => "audio.cycle_length must be at least 2, got " ++ toString cycles.toNat

/-- The text of a refusal. -/
def message (e : InvalidSetting) : String := "invalid configuration: " ++ e.reason

end InvalidSetting

namespace Settings

/-- Refuses settings that make no sense, by the first that does not. -/
def check (s : Settings) : Except InvalidSetting Unit :=
  if s.audio.sampleRate = 0 then .error .sampleRate
  else if s.audio.bufferSamples = 0 then .error .bufferSamples
  else if s.audio.cycleLength < 2 then .error (.cycleLength s.audio.cycleLength)
  else .ok ()

theorem check_eq_ok_iff (s : Settings) :
    s.check = .ok () ↔
      s.audio.sampleRate ≠ 0 ∧ s.audio.bufferSamples ≠ 0 ∧ 2 ≤ s.audio.cycleLength := by
  unfold check
  split
  · simp_all
  · split
    · simp_all
    · split
      · rename_i h
        simp_all [UInt32.not_le.mpr h]
      · rename_i h
        simp_all [UInt32.not_lt.mp h]

end Settings

end Famicom
