/-
  When samples are taken makes no difference to what is heard.

  A frame that is played moves as many samples to the output as there is room for; the others wait in the
  resampler for a later frame.  So how often the output is emptied decides where the samples are cut, and
  it should decide nothing else.

  1. **The recording** (`Recording`): a mixer and a reel from which nothing is ever taken off.  What the
     calls make of it has nothing to do with the samples taken (`afterAll_filter`).
  2. **Following** (`Follows`): in a run the reel of the resampler is what is left of the recording's, and
     what has come out is the start of it (`Follows.perform`, `Follows.run`).  A frame that is played must
     be prompt for this: a reading leaves steps behind that lie more than two samples past its end.
  3. **Punctual changes** (`prompt_of_punctual`): a frame is prompt if the changes noted in each one lie at
     most two samples past its end.

  Main statement: calls that differ in when samples are taken give one stream (`stream_drained`).  A change
  that is noted for a cycle after the end of its frame is the exception (`stream_late`).
-/
import Famicom.Proofs.Mixer.Replay
import Famicom.Proofs.Mixer.Reset
import Famicom.Proofs.Resampler.Reel

namespace Famicom

/-! ## The steps of a frame -/

namespace Resampler

variable {r q : Resampler}

/-- A step of a frame, timed in units. -/
def timed (r : Resampler) (step : Nat × Int) : Step :=
  ⟨(r.timeAt (.ofNat step.1)).toNat, .ofInt step.2, false⟩

theorem timed_congr (h : q.timeAt = r.timeAt) : q.timed = r.timed := by
  unfold timed
  rw [h]

theorem addSteps_reel {steps : List (Nat × Int)} (h : r.addSteps steps = .ok q) :
    q.gauge = r.gauge ∧ q.reel = r.reel.addAll 1 (steps.map r.timed) := by
  induction steps generalizing r with
  | nil =>
    cases h
    exact ⟨rfl, rfl⟩
  | cons step steps ih =>
    rw [addSteps] at h
    cases hstep : r.addStep (.ofNat step.1) (Int32.ofInt step.2) with
    | error e =>
      rw [hstep] at h
      cases h
    | ok p =>
      rw [hstep] at h
      obtain ⟨hgauge, hreel⟩ := addStep_reel hstep
      obtain ⟨hgauge', hreel'⟩ := ih h
      obtain ⟨-, hf, ho, -⟩ := Gauge.mk.inj hgauge
      refine ⟨hgauge'.trans hgauge, ?_⟩
      rw [hreel', hreel, timed_congr (timeAt_congr hf ho)]
      rfl

end Resampler

namespace Mixer

variable {m q : Mixer} {time : Nat} {samples : Array Int}

/-! ## The recording -/

/-- The call empties the output. -/
def Call.takes : Call → Bool
  | .takeSamples => true
  | _ => false

/-- A mixer that has played to a reel from which nothing was taken off. -/
structure Recording where
  /-- What is noted, the levels and the clock. -/
  mixer : Mixer
  reel : Resampler.Tape

namespace Recording

/-- Ends a frame, as the reference does where there is room for all. -/
def endFrame (s : Recording) (time : Nat) : Recording :=
  let m := s.mixer
  let r := m.resampler
  { mixer := { m with
      pending := #[], levels := m.levels + LevelChange.sumWhere (fun _ => True) m.pending.toList
      lastOutput := m.lastLevel m.pending.toList
      resampler := { r with offset := r.timeAt (.ofNat time) &&& 0xFFFFFFFFFFFFF } }
    reel := (s.reel.addAll 1 ((m.stepsOf m.pending.toList).map r.timed)).pass 1
      (r.samplesIn (.ofNat time) * 2 ^ 52) }

/-- What a call adds to the recording.  To take samples adds nothing, and a reset has no part in one. -/
def after (s : Recording) : Call → Recording
  | .addDelta channel cycle amount => { s with mixer := s.mixer.addDelta channel cycle amount }
  | .endFrame time | .playFrame time => s.endFrame time
  | .setRegion region => { s with mixer := (s.mixer.setRegion region).2 }
  | .takeSamples | .reset => s

/-- What calls add to it. -/
def afterAll (s : Recording) (calls : List Call) : Recording := calls.foldl after s

/-- All that is heard on the reel. -/
def heard (s : Recording) : List Int := s.reel.heard s.reel.available

/-- When a frame is played, no step lies more than two samples past its end. -/
def Prompt (s : Recording) : List Call → Prop
  | [] => True
  | c :: rest => (∀ time, c = .playFrame time → (s.after c).reel.Quiet) ∧ (s.after c).Prompt rest

variable {s : Recording} {calls : List Call}

theorem after_of_takes {c : Call} (h : c.takes) : s.after c = s := by
  cases c with
  | takeSamples => rfl
  | _ => cases h

/-- When samples are taken does not matter to the recording. -/
theorem afterAll_filter (s : Recording) (calls : List Call) :
    s.afterAll (calls.filter fun c => !c.takes) = s.afterAll calls := by
  induction calls generalizing s with
  | nil => rfl
  | cons c rest ih =>
    by_cases hc : c.takes
    · rw [List.filter_cons_of_neg (by simpa using hc), ih, afterAll, afterAll, List.foldl_cons,
        after_of_takes hc]
    · rw [List.filter_cons_of_pos (by simpa using hc)]
      exact ih (s.after c)

theorem prompt_filter : s.Prompt (calls.filter fun c => !c.takes) ↔ s.Prompt calls := by
  induction calls generalizing s with
  | nil => exact Iff.rfl
  | cons c rest ih =>
    by_cases hc : c.takes
    · rw [List.filter_cons_of_neg (by simpa using hc), ih, Prompt, after_of_takes hc]
      refine ⟨fun h => ⟨?_, h⟩, fun h => h.2⟩
      rintro time rfl
      cases hc
    · rw [List.filter_cons_of_pos (by simpa using hc), Prompt, Prompt, ih]

end Recording

/-! ## Following -/

/-- A mixer has the notes of a recording, and its resampler what is left of the reel.  What came out before
    is the start of what is heard on it, after these samples. -/
structure Follows (s : Recording) (past out : List Int) (m : Mixer) : Prop where
  notes : m = { s.mixer with resampler := m.resampler, output := m.output }
  factor : m.resampler.factor = s.mixer.resampler.factor
  offset : m.resampler.offset = s.mixer.resampler.offset
  cut : ∃ n ≤ s.reel.available, m.resampler.reel = s.reel.drop n ∧
    out ++ m.output.toList = past ++ s.reel.heard n

variable {s : Recording} {past out : List Int}

theorem Follows.quiet_iff (h : Follows s past out m) :
    m.resampler.Quiet m.resampler.available ↔ s.reel.Quiet := by
  obtain ⟨n, hn, hreel, -⟩ := h.cut
  rw [← Resampler.quiet_reel, hreel, Resampler.Tape.quiet_drop hn]

/-- A recording begins with what the resampler holds. -/
def record (m : Mixer) : Recording := ⟨m, m.resampler.reel⟩

theorem Follows.start (m : Mixer) : Follows m.record m.output.toList [] m :=
  ⟨rfl, rfl, rfl, 0, Nat.zero_le _, Resampler.Tape.drop_zero.symm, (List.append_nil _).symm⟩

theorem Follows.timeAt_eq (h : Follows s past out m) : m.resampler.timeAt = s.mixer.resampler.timeAt :=
  Resampler.timeAt_congr h.factor h.offset

/-- A mixer that follows is that of the recording, with a resampler and an output of its own. -/
theorem Follows.exists_eq (h : Follows s past out m) :
    ∃ resampler output, m = { s.mixer with resampler, output } := ⟨_, _, h.notes⟩

theorem Follows.append_nil (h : Follows s past out m) : Follows s past (out ++ []) m := by
  rw [List.append_nil]
  exact h

/-- A frame that is taken adds its steps to the reel, and nothing comes out. -/
theorem Follows.endFrame (h : Follows s past out m) (hq : m.endFrame time = (.ok (), q)) :
    Follows (s.endFrame time) past out q := by
  obtain ⟨first, output, rfl⟩ := h.exists_eq
  obtain ⟨n, hn, hreel, hout⟩ := h.cut
  obtain ⟨p, last, hp, hlast, rfl⟩ := endFrame_ok_iff.mp hq
  obtain ⟨r, hr, rfl⟩ := applyChanges_inOrder.mp hp
  obtain ⟨hgauge, hsteps⟩ := Resampler.addSteps_reel hr
  obtain ⟨hfactor, hoffset, hpass⟩ := Resampler.endFrame_reel hlast
  obtain ⟨-, hf, ho, -⟩ := Resampler.Gauge.mk.inj hgauge
  have htime : r.timeAt = s.mixer.resampler.timeAt := (Resampler.timeAt_congr hf ho).trans h.timeAt_eq
  have hsamples : r.samplesIn (.ofNat time) = s.mixer.resampler.samplesIn (.ofNat time) := by
    unfold Resampler.samplesIn
    rw [htime]
  -- the steps and the end are timed by the clock, which the recording has too
  dsimp only at hreel hsteps hpass hoffset hfactor hf
  rw [hsteps, hreel, Resampler.timed_congr h.timeAt_eq, hsamples] at hpass
  obtain ⟨hle, hdrop, hheard⟩ := Resampler.Tape.frame_drop hn 1
    ((s.mixer.stepsOf s.mixer.pending.toList).map s.mixer.resampler.timed)
    (s.mixer.resampler.samplesIn (.ofNat time) * 2 ^ 52)
  refine ⟨rfl, ?_, ?_, n, hle, hpass.trans hdrop, ?_⟩
  · exact hfactor.trans (hf.trans h.factor)
  · exact hoffset.trans (congrArg (· (.ofNat time) &&& 0xFFFFFFFFFFFFF) htime)
  · exact hout.trans (congrArg (past ++ ·) hheard.symm)

/-- A reading moves the cut. -/
theorem Follows.read (h : Follows s past out m) (hquiet : s.reel.Quiet) (count : Nat) :
    Follows s past out { m with
      resampler := (m.resampler.read count).2, output := m.output ++ (m.resampler.read count).1 } := by
  obtain ⟨n, hn, hreel, hout⟩ := h.cut
  have hleft := Resampler.read_reel (h.quiet_iff.mpr hquiet) count
  have hsamples := m.resampler.read_samples count
  obtain ⟨-, hf, ho, -⟩ := Resampler.Gauge.mk.inj (m.resampler.read_gauge count).2
  have havailable := Resampler.available_of_reel hreel
  rw [hreel, Resampler.Tape.drop_drop] at hleft
  rw [hreel] at hsamples
  refine ⟨?_, hf.trans h.factor, ho.trans h.offset, n + min count m.resampler.available, by omega,
    hleft, ?_⟩
  · obtain ⟨first, output, rfl⟩ := h.exists_eq
    rfl
  · rw [Array.toList_append, hsamples, ← List.append_assoc, hout, List.append_assoc,
      ← Resampler.Tape.heard_heard]

theorem Follows.playFrame (h : Follows s past out m) (hq : m.playFrame time = (.ok (), q))
    (hquiet : (s.endFrame time).reel.Quiet) : Follows (s.endFrame time) past out q := by
  rcases m.playFrame_cases time with ⟨e, p, -, hp⟩ | ⟨p, hend, hp⟩
  · cases hq.symm.trans hp
  · cases hq.symm.trans hp
    exact (h.endFrame hend).read hquiet _

/-- Emptying the output leaves the cut where it is. -/
theorem Follows.takeSamples (h : Follows s past out m) :
    Follows s past (out ++ m.takeSamples.1.toList) m.takeSamples.2 := by
  obtain ⟨first, output, rfl⟩ := h.exists_eq
  obtain ⟨-, hfactor, hoffset, n, hn, hreel, hout⟩ := h
  refine ⟨rfl, hfactor, hoffset, n, hn, hreel, ?_⟩
  show out ++ output.toList ++ [] = _
  rw [List.append_nil]
  exact hout

theorem Follows.addDelta (h : Follows s past out m) (channel : Channel) (cycle : Nat) (amount : Int16) :
    Follows { s with mixer := s.mixer.addDelta channel cycle amount } past out
      (m.addDelta channel cycle amount) := by
  obtain ⟨first, output, rfl⟩ := h.exists_eq
  obtain ⟨-, hfactor, hoffset, hcut⟩ := h
  unfold Mixer.addDelta
  dsimp only
  split
  · exact ⟨rfl, hfactor, hoffset, hcut⟩
  · exact ⟨rfl, hfactor, hoffset, hcut⟩

/-- Another clock is set on both. -/
theorem Follows.setRegion (h : Follows s past out m) {region : Region}
    (hq : m.setRegion region = (.ok (), q)) :
    Follows { s with mixer := (s.mixer.setRegion region).2 } past out q := by
  obtain ⟨first, output, rfl⟩ := h.exists_eq
  obtain ⟨-, hfactor, hoffset, hcut⟩ := h
  obtain ⟨r, hr, rfl⟩ := retune_ok_iff.mp hq
  obtain ⟨hboth, hrest⟩ := Resampler.setRates_congr hr s.mixer.resampler
  have hset : s.mixer.setRegion region = (.ok (), { s.mixer with
      region, resampler := { s.mixer.resampler with factor := r.factor } }) :=
    retune_ok_iff.mpr ⟨_, hboth, rfl⟩
  rw [hset, hrest]
  exact ⟨rfl, rfl, hoffset, hcut⟩

/-- A call other than a reset that does not fail goes on with the recording, if a frame that it plays is
    prompt. -/
theorem Follows.perform (h : Follows s past out m) {c : Call} (hc : c ≠ .reset)
    (hq : m.perform c = (.ok (), samples, q))
    (hquiet : ∀ time, c = .playFrame time → (s.after c).reel.Quiet) :
    Follows (s.after c) past (out ++ samples.toList) q := by
  obtain ⟨hresult, hanswer⟩ := Prod.mk.inj hq
  obtain ⟨rfl, rfl⟩ := Prod.mk.inj hanswer
  cases c with
  | addDelta channel cycle amount => exact (h.addDelta channel cycle amount).append_nil
  | endFrame time => exact (h.endFrame (Prod.ext hresult rfl)).append_nil
  | playFrame time => exact (h.playFrame (Prod.ext hresult rfl) (hquiet time rfl)).append_nil
  | takeSamples => exact h.takeSamples
  | setRegion region => exact (h.setRegion (Prod.ext hresult rfl)).append_nil
  | reset => exact absurd rfl hc

/-! ## Runs -/

/-- The samples handed out at calls, and the mixer after them; or the first failure. -/
def run (m : Mixer) : List Call → Except ResampleError (List Int × Mixer)
  | [] => .ok ([], m)
  | c :: rest =>
    match m.perform c with
    | (.ok (), samples, m) => do
      let (out, m) ← m.run rest
      return (samples.toList ++ out, m)
    | (.error e, _) => .error e

/-- All that is heard of a mixer: what was handed out, the output, and what the resampler still holds. -/
def stream (out : List Int) (m : Mixer) : List Int :=
  out ++ m.output.toList ++ (m.resampler.read m.resampler.available).1.toList

/-- When a frame is played, the resampler holds no step more than two samples past its end. -/
def Prompt (m : Mixer) : List Call → Prop
  | [] => True
  | c :: rest =>
    (∀ time q, c = .playFrame time → m.endFrame time = (.ok (), q) →
      q.resampler.Quiet q.resampler.available) ∧
    (m.perform c).2.2.Prompt rest

theorem run_cons_eq_ok {c : Call} {rest : List Call} {more : List Int}
    (h : m.run (c :: rest) = .ok (more, q)) : ∃ samples p later,
      m.perform c = (.ok (), samples, p) ∧ p.run rest = .ok (later, q) ∧
        more = samples.toList ++ later := by
  rw [run] at h
  rcases hc : m.perform c with ⟨e | ⟨⟩, samples, p⟩
  · rw [hc] at h
    cases h
  · rw [hc] at h
    dsimp only at h
    cases hrest : p.run rest with
    | error e =>
      rw [hrest] at h
      cases h
    | ok result =>
      rw [hrest] at h
      cases h
      exact ⟨samples, p, _, rfl, hrest, rfl⟩

variable {calls others : List Call} {more : List Int}

/-- What is heard after the samples before is the whole reel. -/
theorem Follows.stream_eq (h : Follows s past out m) :
    stream out m = past ++ s.heard := by
  obtain ⟨n, hn, hreel, hout⟩ := h.cut
  have hsamples := m.resampler.read_samples m.resampler.available
  have havailable := Resampler.available_of_reel hreel
  rw [stream, hout, hsamples, Nat.min_self, hreel, havailable, List.append_assoc,
    ← Resampler.Tape.heard_heard, Nat.add_sub_of_le hn, Recording.heard]

/-- A run follows the recording of its calls. -/
theorem Follows.run (h : Follows s past out m) (hreset : .reset ∉ calls) (hprompt : s.Prompt calls)
    (hrun : m.run calls = .ok (more, q)) : Follows (s.afterAll calls) past (out ++ more) q := by
  induction calls generalizing s out m more with
  | nil =>
    cases hrun
    exact h.append_nil
  | cons c rest ih =>
    obtain ⟨hc, hrest⟩ := not_or.mp (List.mem_cons.not.mp hreset)
    obtain ⟨samples, p, later, hp, hlater, rfl⟩ := run_cons_eq_ok hrun
    rw [← List.append_assoc]
    exact ih (h.perform (Ne.symm hc) hp hprompt.1) hrest hprompt.2 hlater

/-- Whether frames are prompt is seen on the recording. -/
theorem Follows.prompt (h : Follows s past out m) (hreset : .reset ∉ calls) (hprompt : m.Prompt calls)
    (hrun : m.run calls = .ok (more, q)) : s.Prompt calls := by
  induction calls generalizing s out m more with
  | nil => trivial
  | cons c rest ih =>
    obtain ⟨hc, hrest⟩ := not_or.mp (List.mem_cons.not.mp hreset)
    obtain ⟨samples, p, later, hp, hlater, -⟩ := run_cons_eq_ok hrun
    have hquiet : ∀ time, c = .playFrame time → (s.after c).reel.Quiet := by
      rintro time rfl
      have hplay : (m.playFrame time).1 = .ok () := (Prod.mk.inj hp).1
      rcases m.playFrame_cases time with ⟨e, u, -, hu⟩ | ⟨u, hend, -⟩
      · rw [hu] at hplay
        cases hplay
      · exact (h.endFrame hend).quiet_iff.mp (hprompt.1 time u rfl hend)
    refine ⟨hquiet, ih (h.perform (Ne.symm hc) hp hquiet) hrest ?_ hlater⟩
    have := hprompt.2
    rwa [hp] at this

/-- Calls that differ in when samples are taken give one stream, the samples before and all that is heard
    on the recording: nothing is lost, repeated or heard in another order.  No reset is among the calls,
    and no step lies more than two samples past the end of a frame when that is played. -/
theorem stream_drained {more' : List Int} {q' : Mixer}
    (hsame : calls.filter (fun c => !c.takes) = others.filter fun c => !c.takes)
    (hreset : .reset ∉ calls) (hprompt : m.Prompt calls)
    (h : m.run calls = .ok (more, q)) (h' : m.run others = .ok (more', q')) :
    stream more q = stream more' q' ∧
      stream more q = m.output.toList ++ (m.record.afterAll calls).heard := by
  -- the calls have one recording, and both runs follow it
  have hstart := Follows.start m
  have hrecorded := hstart.prompt hreset hprompt h
  have hreset' : .reset ∉ others := by
    intro hmem
    have hkept : .reset ∈ others.filter fun c => !c.takes := List.mem_filter.mpr ⟨hmem, rfl⟩
    rw [← hsame] at hkept
    exact hreset (List.mem_filter.mp hkept).1
  have hrecorded' : m.record.Prompt others := by
    rw [← Recording.prompt_filter, ← hsame, Recording.prompt_filter]
    exact hrecorded
  have hend := hstart.run hreset hrecorded h
  have hend' := hstart.run hreset' hrecorded' h'
  rw [← Recording.afterAll_filter, ← hsame, Recording.afterAll_filter] at hend'
  exact ⟨hend.stream_eq.trans hend'.stream_eq.symm, hend.stream_eq⟩

/-! ## Punctual changes -/

/-- The length of the frame that a call ends. -/
def Call.frame? : Call → Option Nat
  | .endFrame time | .playFrame time => some time
  | _ => none

/-- The changes noted in a frame lie at most two samples past its end. -/
def Punctual (m : Mixer) : List Call → Prop
  | [] => True
  | c :: rest =>
    (∀ time ∈ c.frame?, ∀ cycle ∈ m.noted,
      m.resampler.samplesIn (.ofNat cycle) ≤ m.resampler.samplesIn (.ofNat time) + 2) ∧
    (m.perform c).2.2.Punctual rest

instance decidablePunctual : ∀ (m : Mixer) calls, Decidable (m.Punctual calls)
  | _, [] => .isTrue trivial
  | m, c :: rest =>
    have := decidablePunctual (m.perform c).2.2 rest
    inferInstanceAs (Decidable (_ ∧ _))

/-- A frame of punctual changes leaves no step further on than two samples. -/
theorem quiet_endFrame (h : m.resampler.Quiet m.resampler.available)
    (hcycles : ∀ cycle ∈ m.noted,
      m.resampler.samplesIn (.ofNat cycle) ≤ m.resampler.samplesIn (.ofNat time) + 2) :
    (m.record.endFrame time).reel.Quiet := by
  refine (Resampler.quiet_reel.mpr h).frame fun step hstep => ?_
  obtain ⟨⟨cycle, change⟩, hmem, rfl⟩ := List.mem_map.mp hstep
  have hcycle : cycle ∈ m.noted := by
    have hstop := List.mem_map_of_mem (f := (·.1)) hmem
    rw [stepsOf, cycles_stepsTo] at hstop
    exact (LevelChange.mem_stops _ _).mp hstop
  have hend : (m.resampler.reel.position + m.resampler.samplesIn (.ofNat time) * 2 ^ 52 * 1) / 2 ^ 52 =
      m.resampler.available + m.resampler.samplesIn (.ofNat time) := by
    rw [Resampler.position_reel]
    omega
  have hbegin : (m.resampler.reel.position + (m.resampler.timeAt (.ofNat cycle)).toNat * 1) / 2 ^ 52 =
      m.resampler.available + m.resampler.samplesIn (.ofNat cycle) := m.resampler.sample_reel _
  have hlate := hcycles cycle hcycle
  exact hbegin.trans_le (hend ▸ by omega)

theorem quiet_after {c : Call} (h : m.resampler.Quiet m.resampler.available)
    (hcycles : ∀ time ∈ c.frame?, ∀ cycle ∈ m.noted,
      m.resampler.samplesIn (.ofNat cycle) ≤ m.resampler.samplesIn (.ofNat time) + 2) :
    (m.record.after c).reel.Quiet := by
  have hreel : m.record.reel.Quiet := Resampler.quiet_reel.mpr h
  cases c with
  | endFrame time => exact quiet_endFrame h (hcycles time rfl)
  | playFrame time => exact quiet_endFrame h (hcycles time rfl)
  | addDelta channel cycle amount => exact hreel
  | takeSamples => exact hreel
  | setRegion region => exact hreel
  | reset => exact hreel

/-- Frames of punctual changes are prompt. -/
theorem prompt_of_punctual (h : m.resampler.Quiet m.resampler.available) (hreset : .reset ∉ calls)
    (hpunctual : m.Punctual calls) (hrun : m.run calls = .ok (more, q)) : m.Prompt calls := by
  induction calls generalizing m more with
  | nil => trivial
  | cons c rest ih =>
    obtain ⟨hc, hrest⟩ := not_or.mp (List.mem_cons.not.mp hreset)
    obtain ⟨samples, p, later, hp, hlater, -⟩ := run_cons_eq_ok hrun
    have hquiet := quiet_after h hpunctual.1
    have hfollows := (Follows.start m).perform (Ne.symm hc) hp fun _ _ => hquiet
    have hpunctual' := hpunctual.2
    rw [Prompt]
    rw [hp] at hpunctual' ⊢
    refine ⟨?_, ih (hfollows.quiet_iff.mpr hquiet) hrest hpunctual' hlater⟩
    rintro time u rfl hend
    exact ((Follows.start m).endFrame hend).quiet_iff.mpr hquiet

/-! ## A sample for every clock -/

/-- Room for 24 samples, at the processor's own rate. -/
def everyClock : Mixer :=
  silent .ntsc { sampleRate := 1789773, bufferSamples := 24 } (2 ^ 52) 0x80000000

theorem new_everyClock : Mixer.new .ntsc { sampleRate := 1789773, bufferSamples := 24 } = .ok everyClock :=
  new_eq_ok_iff.mpr ⟨by decide, by decide, by decide, 2 ^ 52, by decide +kernel, rfl⟩

/-- Changes in their frames.  There is no room in the output for six samples of the second. -/
def twoFrames : List Call :=
  [.addDelta .pulse1 3 15, .playFrame 10, .addDelta .pulse1 4 (-5), .playFrame 20]

/-- The same, with the output emptied after the first. -/
def twoFramesTaken : List Call :=
  [.addDelta .pulse1 3 15, .playFrame 10, .takeSamples, .addDelta .pulse1 4 (-5), .playFrame 20]

theorem stream_drained_everyClock : ∃ more q more' q', everyClock.Prompt twoFrames ∧
    everyClock.run twoFrames = .ok (more, q) ∧ everyClock.run twoFramesTaken = .ok (more', q') ∧
    (q.pendingSamples, q'.pendingSamples) = (6, 0) ∧ stream more q = stream more' q' ∧
    stream more q = everyClock.output.toList ++ (everyClock.record.afterAll twoFrames).heard := by
  have hsame : twoFrames.filter (fun c => !c.takes) = twoFramesTaken.filter fun c => !c.takes := rfl
  have hreset : .reset ∉ twoFrames := by simp [twoFrames]
  have hpunctual : everyClock.Punctual twoFrames := by decide +kernel
  have hwaiting : (everyClock.run twoFrames).map (·.2.pendingSamples) = .ok 6 ∧
      (everyClock.run twoFramesTaken).map (·.2.pendingSamples) = .ok 0 := by
    decide +kernel
  cases h : everyClock.run twoFrames with
  | error e =>
    rw [h] at hwaiting
    cases hwaiting.1
  | ok result =>
    cases h' : everyClock.run twoFramesTaken with
    | error e =>
      rw [h'] at hwaiting
      cases hwaiting.2
    | ok result' =>
      have hprompt := prompt_of_punctual (Resampler.quiet_empty rfl _) hreset hpunctual h
      rw [h, h'] at hwaiting
      refine ⟨_, _, _, _, hprompt, rfl, rfl, ?_, stream_drained hsame hreset hprompt h h'⟩
      exact Prod.ext (Except.ok.inj hwaiting.1) (Except.ok.inj hwaiting.2)

/-- A change of cycle 20 is noted for a frame of one clock.  It is played after the next frame, in its
    place if the samples wait; but a reading leaves it where it is, and then it comes a sample late. -/
theorem stream_late : Reachable everyClock ∧
    (everyClock.run [.playFrame 24, .addDelta .pulse1 20 15, .playFrame 1, .playFrame 23]).map
      (fun (out, q) => stream out q) = .ok (List.replicate 45 0 ++ [3, -7, 25]) ∧
    (everyClock.run [.playFrame 24, .takeSamples, .addDelta .pulse1 20 15, .playFrame 1,
      .playFrame 23]).map (fun (out, q) => stream out q) = .ok (List.replicate 46 0 ++ [3, -7]) :=
  ⟨.new new_everyClock, by decide +kernel, by decide +kernel⟩

end Mixer

end Famicom
