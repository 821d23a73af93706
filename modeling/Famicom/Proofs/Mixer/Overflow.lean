/-
  Overflow: what a refused audio frame leaves behind, and that taking samples does not mend it.

  A frame is refused because a moment noted in it, or its end, lies further ahead than the resampler has
  room for; `Accepts` says that neither is the case.  The refusal comes before the resampler is read, so
  the samples that fill it stay there, and the room in the output that taking samples makes is not used.

  1. **What a frame does** (`applyChanges_spec`, `playFrame_spec`): a frame is ended iff it is accepted.
     A refused one keeps the gauge of the resampler, and what is still noted lies at the same cycles; or,
     when only the end was refused, nothing is noted any more.
  2. **What a refusal leaves** (`not_accepts_playFrame`, `accepts_takeSamples`): the same frame is
     refused again, and whether samples are taken in between has no part in it.
  3. **Rounds** (`retry_refused`): by induction every round of taking samples and trying again is
     refused.

  Main statement: such rounds get a frame through iff the first try does (`retry_ok_iff_accepts`).  So
  from a mixer that cannot take a frame there is no way on but a reset, even where an empty resampler
  would have room for the frame (`overflow_stays`).
-/
import Famicom.Proofs.Mixer.Reachable

namespace Famicom

namespace LevelChange

/-- Putting neighbours together loses no cycle and brings none in. -/
theorem mem_cycles_merge (changes : List LevelChange) (cycle : Nat) :
    cycle ∈ (merge changes).map (·.cycle) ↔ cycle ∈ changes.map (·.cycle) := by
  induction changes with
  | nil => exact Iff.rfl
  | cons c rest ih =>
    rw [List.map_cons, List.mem_cons, ← ih, merge]
    cases merge rest with
    | nil => exact List.mem_cons
    | cons d rest =>
      dsimp only
      split
      · next h => simp [h]
      · simp

theorem mem_cycles_inOrder (changes : List LevelChange) (cycle : Nat) :
    cycle ∈ (inOrder changes).map (·.cycle) ↔ cycle ∈ changes.map (·.cycle) := by
  rw [inOrder, mem_cycles_merge]
  simp only [List.mem_map, List.mem_mergeSort]

end LevelChange

namespace Mixer

/-- The cycles at which changes are noted. -/
def noted (m : Mixer) : List Nat := m.pending.toList.map (·.cycle)

/-- Notes changes, all of them. -/
def note (m : Mixer) (changes : List LevelChange) : Mixer :=
  { m with pending := m.pending ++ changes.toArray }

theorem note_nil (m : Mixer) : m.note [] = m := by
  unfold note
  rw [show ([] : List LevelChange).toArray = #[] from rfl, Array.append_empty]

theorem note_note (m : Mixer) (cs ds : List LevelChange) :
    (m.note cs).note ds = m.note (cs ++ ds) := by
  unfold note
  simp only [Array.append_assoc, List.append_toArray]

theorem noted_note (m : Mixer) (cs : List LevelChange) :
    (m.note cs).noted = m.noted ++ cs.map (·.cycle) := by
  unfold noted note
  simp

/-- A frame of this length can be ended: every moment noted has slots to go to, and the samples fit. -/
structure Accepts (m : Mixer) (time : Nat) : Prop where
  moments : ∀ cycle ∈ m.noted, m.Reaches cycle
  frame : m.resampler.Holds (.ofNat time)

/-- An empty resampler has room for the samples of a frame of this length. -/
def Fits (m : Mixer) (time : Nat) : Prop :=
  m.resampler.samplesIn (.ofNat time) ≤ m.resampler.capacity

/-- The last of so many rounds of taking the finished samples and trying again to play a frame, after a
    first try. -/
def retry (m : Mixer) (time : Nat) : Nat → Except ResampleError Unit × Mixer
  | 0 => m.playFrame time
  | n + 1 => (m.retry time n).2.takeSamples.2.playFrame time

variable {m q : Mixer} {time : Nat}

/-- Acceptance is a matter of the gauge and of the cycles noted. -/
theorem accepts_congr (hg : q.resampler.gauge = m.resampler.gauge)
    (hn : ∀ cycle, cycle ∈ q.noted ↔ cycle ∈ m.noted) : q.Accepts time ↔ m.Accepts time := by
  constructor
  · rintro ⟨hm, hf⟩
    refine ⟨fun cycle hc => ?_, (Resampler.holds_congr hg).mp hf⟩
    exact (Resampler.reaches_congr hg).mp (hm cycle ((hn cycle).mpr hc))
  · rintro ⟨hm, hf⟩
    refine ⟨fun cycle hc => ?_, (Resampler.holds_congr hg).mpr hf⟩
    exact (Resampler.reaches_congr hg).mpr (hm cycle ((hn cycle).mp hc))

/-! ## What a frame does -/

/-- Moments are all carried out if each has its slots.  Else they all stay noted. -/
theorem applyChanges_spec (m : Mixer) (past changes : List LevelChange) :
    ((∀ c ∈ changes, m.Reaches c.cycle) ∧ (m.applyChanges past changes).1 = .ok () ∧
      (m.applyChanges past changes).2.noted = []) ∨
    ((∃ c ∈ changes, ¬ m.Reaches c.cycle) ∧
      (m.applyChanges past changes).1 = .error .overflow ∧
      (m.applyChanges past changes).2.noted = (past.reverse ++ changes).map (·.cycle)) := by
  induction changes generalizing m past with
  | nil => exact .inl ⟨fun c hc => absurd hc List.not_mem_nil, rfl, rfl⟩
  | cons c rest ih =>
    obtain ⟨hk, hc⟩ := m.applyChange_spec c
    unfold applyChanges
    dsimp only
    split
    · next q hq =>
      rw [hq] at hk hc
      rcases hc with ⟨hc, -⟩ | ⟨-, hc⟩
      · -- the moments after this one find the gauge as this one did
        have hr : ∀ cycle, q.Reaches cycle ↔ m.Reaches cycle :=
          fun _ => Resampler.reaches_congr hk.gauge
        rcases ih q ({ c with amounts := {} } :: past) with ⟨h, ho, hn⟩ | ⟨⟨d, hd, h⟩, ho, hn⟩
        · refine .inl ⟨fun d hd => ?_, ho, hn⟩
          rcases List.mem_cons.mp hd with rfl | hd
          · exact hc
          · exact (hr _).mp (h d hd)
        · refine .inr ⟨⟨d, List.mem_cons_of_mem c hd, mt (hr _).mpr h⟩, ho, ?_⟩
          rw [hn]
          simp
      · cases hc
    · next e q hq =>
      rw [hq] at hc
      rcases hc with ⟨-, hc⟩ | ⟨hc, he⟩
      · cases hc
      · refine .inr ⟨⟨c, List.mem_cons_self, hc⟩, he, ?_⟩
        simp [noted]

/-- A frame is ended iff it is accepted.  A refused one keeps the gauge, and either the cycles noted or,
    when only its end was refused, none of them. -/
theorem endFrame_spec (m : Mixer) (time : Nat) :
    (m.Accepts time ∧ (m.endFrame time).1 = .ok ()) ∨
    (¬ m.Accepts time ∧ (m.endFrame time).1 = .error .overflow ∧
      ¬ (m.endFrame time).2.Accepts time) := by
  have hk := m.applyChanges_keeps [] (LevelChange.inOrder m.pending.toList)
  have hc := m.applyChanges_spec [] (LevelChange.inOrder m.pending.toList)
  have hn := LevelChange.mem_cycles_inOrder m.pending.toList
  rcases m.endFrame_cases time with ⟨e, q, hq, hend⟩ | ⟨q, hq, hend⟩
  · -- a moment was refused: the same cycles are noted as before
    rw [hq] at hk hc
    rw [hend]
    rcases hc with ⟨-, hc, -⟩ | ⟨⟨c, hcm, hcr⟩, he, hqn⟩
    · cases hc
    · have hm : ¬ m.Accepts time :=
        fun h => hcr (h.moments _ ((hn _).mp (List.mem_map_of_mem hcm)))
      have hqm : ∀ cycle, cycle ∈ q.noted ↔ cycle ∈ m.noted := by
        intro cycle
        rw [hqn]
        exact hn cycle
      exact .inr ⟨hm, he, mt (accepts_congr hk.gauge hqm).mp hm⟩
  · -- all moments are carried out, so the end of the frame decides
    rw [hq] at hk hc
    rcases hc with ⟨hc, -, -⟩ | ⟨-, hc, -⟩
    · have hm : ∀ cycle ∈ m.noted, m.Reaches cycle := by
        intro cycle hcy
        obtain ⟨c, hcm, rfl⟩ := List.mem_map.mp ((hn cycle).mpr hcy)
        exact hc c hcm
      have hholds : q.resampler.Holds (.ofNat time) ↔ m.resampler.Holds (.ofNat time) :=
        Resampler.holds_congr hk.gauge
      rcases hend with ⟨r, hr, hend⟩ | ⟨e, hr, hend⟩
      · rw [hend]
        exact .inl ⟨⟨hm, hholds.mp (Resampler.holds_of_endFrame hr).1⟩, rfl⟩
      · obtain ⟨hfull, rfl⟩ := Resampler.not_holds_of_endFrame hr
        rw [hend]
        exact .inr ⟨fun h => hfull (hholds.mpr h.frame), rfl, fun h => hfull h.frame⟩
    · cases hc

theorem endFrame_of_accepts (h : m.Accepts time) : m.endFrame time = (.ok (), (m.endFrame time).2) := by
  rcases m.endFrame_spec time with ⟨-, hok⟩ | ⟨hno, -⟩
  · exact Prod.ext hok rfl
  · exact absurd h hno

theorem endFrame_of_not_accepts (h : ¬ m.Accepts time) :
    m.endFrame time = (.error .overflow, (m.endFrame time).2) := by
  rcases m.endFrame_spec time with ⟨haccepts, -⟩ | ⟨-, he, -⟩
  · exact absurd haccepts h
  · exact Prod.ext he rfl

/-- A frame is played iff it is accepted, and what refuses a frame goes on refusing it. -/
theorem playFrame_spec (m : Mixer) (time : Nat) :
    (m.Accepts time ∧ (m.playFrame time).1 = .ok ()) ∨
    (¬ m.Accepts time ∧ (m.playFrame time).1 = .error .overflow ∧
      ¬ (m.playFrame time).2.Accepts time) := by
  have hs := m.endFrame_spec time
  rcases m.playFrame_cases time with ⟨e, q, hq, hp⟩ | ⟨q, hq, hp⟩
  · rw [hq] at hs
    rw [hp]
    rcases hs with ⟨-, hs⟩ | hs
    · cases hs
    · exact .inr hs
  · rw [hq] at hs
    rw [hp]
    rcases hs with ⟨ha, -⟩ | ⟨-, hs, -⟩
    · exact .inl ⟨ha, rfl⟩
    · cases hs

/-! ## Rounds of taking samples -/

/-- Taking the finished samples makes no room for a frame. -/
theorem accepts_takeSamples (m : Mixer) (time : Nat) :
    m.takeSamples.2.Accepts time ↔ m.Accepts time := accepts_congr rfl fun _ => Iff.rfl

/-- No number of rounds gets a refused frame through. -/
theorem retry_refused (h : ¬ m.Accepts time) (n : Nat) :
    (m.retry time n).1 = .error .overflow ∧ ¬ (m.retry time n).2.Accepts time := by
  induction n with
  | zero =>
    rcases m.playFrame_spec time with ⟨ha, -⟩ | ⟨-, hr⟩
    · exact absurd ha h
    · exact hr
  | succ n ih =>
    have hn := mt (accepts_takeSamples _ _).mp ih.2
    rcases (m.retry time n).2.takeSamples.2.playFrame_spec time with ⟨ha, -⟩ | ⟨-, hr⟩
    · exact absurd ha hn
    · exact hr

/-- Rounds of taking samples and trying again get a frame through iff it is accepted to begin with; and
    then the first try does not overflow. -/
theorem retry_ok_iff_accepts (m : Mixer) (time : Nat) :
    ((∃ n, (m.retry time n).1 = .ok ()) ↔ m.Accepts time) ∧
      ((m.playFrame time).1 = .error .overflow ↔ ¬ m.Accepts time) := by
  rcases m.playFrame_spec time with ⟨ha, hr⟩ | ⟨ha, hr, -⟩
  · refine ⟨⟨fun _ => ha, fun _ => ⟨0, hr⟩⟩, ⟨fun h => ?_, fun h => absurd ha h⟩⟩
    cases hr.symm.trans h
  · refine ⟨⟨?_, fun h => absurd h ha⟩, ⟨fun _ => ha, fun _ => hr⟩⟩
    rintro ⟨n, hn⟩
    cases hn.symm.trans (retry_refused ha n).1

/-! ## A mixer that stays stuck

With room for one sample, frames of nineteen clocks give one sample each: the first is taken over by the
output, the second waits in the resampler, and the third is refused. -/

/-- Room for one sample, at the usual rate. -/
def oneSample : MixerSettings := { bufferSamples := 1 }

/-- A silent mixer with room for one sample. -/
def tiny : Mixer := silent .ntsc oneSample 241564468917326 0x80000000

/-- The same after two frames of nineteen clocks. -/
def stuck : Mixer := ((tiny.playFrame 19).2.playFrame 19).2

theorem new_oneSample : Mixer.new .ntsc oneSample = .ok tiny :=
  new_eq_ok_iff.mpr ⟨by decide, by decide, by decide, 241564468917326, by decide +kernel, rfl⟩

theorem reachable_stuck : Reachable stuck := .playFrame 19 (.playFrame 19 (.new new_oneSample))

theorem not_accepts_stuck : ¬ stuck.Accepts 19 := by
  intro h
  exact absurd h.frame (by unfold Resampler.Holds; decide +kernel)

/-- An empty resampler would have room for the frame, and still no number of rounds gets it through. -/
theorem overflow_stays :
    ∃ m time, Reachable m ∧ m.Fits time ∧ (m.playFrame time).1 = .error .overflow ∧
      ∀ n, (m.retry time n).1 = .error .overflow := by
  have hfits : stuck.Fits 19 := by unfold Fits; decide +kernel
  refine ⟨stuck, 19, reachable_stuck, hfits, ?_, fun n => (retry_refused not_accepts_stuck n).1⟩
  exact (retry_refused not_accepts_stuck 0).1

end Mixer

end Famicom
