/-
  Abort: what a tick that fails does to the lockstep of the two dividers.

  A failing tick cuts its master cycle short.  The divider that counts first has counted by then; the
  other one has only if the tick that failed is its own.  So an abort at the first divider's tick leaves
  one divider a master cycle ahead of the other, and nothing makes that good: every master cycle after
  it counts in both.

  1. **Common counts** (`inLockstep_counted`): two dividers that have counted different numbers of master
     cycles still stand as after one common number iff the two agree modulo the gcd of the dividers.
     The gcd is 4 in one region and 1 in the other, where some common number always exists.
  2. **The abort** (`stopped_eq_after_iff`, `inLockstep_stopped`): the clock stands where the master
     cycle would have left it iff it was the second divider's tick that failed.
  3. **Afterwards** (`run_counted`): a call that goes well adds one number to both counts.

  Main statement: an aborted call leaves the dividers in lockstep iff the second divider's tick failed or
  the gcd is 1, and the calls after it keep to what it left (`aborted_inLockstep_iff`).
-/
import Mathlib.Data.Nat.ModEq
import Famicom.Proofs.Clock.Lockstep

namespace Famicom

namespace Clock

open Tick (deliver FailsAfter)

/-- Both dividers stand as after one common number of master cycles. -/
def InLockstep (c : Clock) : Prop :=
  ∃ m, c.cpuPhase = m % c.region.cpuDivider ∧ c.dotPhase = m % c.region.dotDivider

variable {region : Region} {p : Pace} {m k : Nat} {t : Tick} {n : Tick → Nat}

/-! ## Common counts -/

theorem inLockstep_after (region : Region) (m : Nat) : InLockstep (after region m) := ⟨m, rfl, rfl⟩

/-- Counts have a common one iff they agree modulo the gcd of the dividers: the Chinese remainder. -/
theorem inLockstep_counted :
    InLockstep (counted region n) ↔
      n .cpu ≡ n .dot [MOD Nat.gcd region.cpuDivider region.dotDivider] := by
  constructor
  · rintro ⟨m, hcpu, hdot⟩
    have hc : n .cpu ≡ m [MOD region.cpuDivider] := hcpu
    have hd : n .dot ≡ m [MOD region.dotDivider] := hdot
    exact (hc.of_dvd (Nat.gcd_dvd_left ..)).trans (hd.of_dvd (Nat.gcd_dvd_right ..)).symm
  · intro h
    obtain ⟨m, hcpu, hdot⟩ := Nat.chineseRemainder' h
    exact ⟨m, hcpu.symm, hdot.symm⟩

/-- What is added to both counts makes no difference. -/
theorem inLockstep_counted_add (j : Nat) :
    InLockstep (counted region fun t => n t + j) ↔ InLockstep (counted region n) := by
  rw [inLockstep_counted, inLockstep_counted]
  constructor
  · intro h
    exact h.add_right_cancel' j
  · intro h
    exact h.add_right j

/-- A number and the next one agree modulo the gcd of the dividers only if that is 1. -/
theorem succ_modEq_gcd_iff :
    m + 1 ≡ m [MOD Nat.gcd region.cpuDivider region.dotDivider] ↔ region = .pal := by
  cases region with
  | ntsc =>
    have hne : ¬ m + 1 ≡ m [MOD 4] := by
      intro h
      have hmod : (m + 1) % 4 = m % 4 := h
      omega
    exact iff_of_false hne (by decide)
  | pal => exact iff_of_true (Nat.modEq_one) rfl

/-! ## The abort -/

theorem one_lt_divider (t : Tick) (region : Region) : 1 < t.divider region := by
  cases t <;> cases region <;> decide

/-- The clock stands where the master cycle would have left it iff it was the second divider's tick that
    failed. -/
theorem stopped_eq_after_iff (ht : t = p.first ∨ t = p.second) :
    stopped region p m t = after region (m + 1) ↔ t = p.second := by
  rcases ht with rfl | rfl
  · refine iff_of_false ?_ p.first_ne_second
    rw [stopped, if_neg p.first_ne_second]
    intro h
    -- the second divider has not counted, and one cycle more is another phase
    have hphase : m % p.second.divider region = (m + 1) % p.second.divider region := by
      cases p with
      | cpuCycle => exact congrArg Clock.cpuPhase h
      | frame => exact congrArg Clock.dotPhase h
      | dot => exact congrArg Clock.dotPhase h
    have hdvd : p.second.divider region ∣ m + 1 - m := (Nat.modEq_iff_dvd' (Nat.le_succ m)).mp hphase
    have hlt := one_lt_divider p.second region
    have hle := Nat.le_of_dvd (by omega) hdvd
    omega
  · exact iff_of_true (if_pos rfl) rfl

theorem inLockstep_stopped (ht : t = p.first ∨ t = p.second) :
    InLockstep (stopped region p m t) ↔ t = p.second ∨ region = .pal := by
  rcases ht with rfl | rfl
  · rw [stopped, if_neg p.first_ne_second, inLockstep_counted, or_iff_right p.first_ne_second,
      ← succ_modEq_gcd_iff (m := m)]
    cases p with
    | cpuCycle => exact Nat.ModEq.comm
    | frame => exact Iff.rfl
    | dot => exact Iff.rfl
  · rw [stopped, if_pos rfl]
    exact iff_of_true (inLockstep_after region (m + 1)) (.inl rfl)

/-! ## Afterwards -/

variable {σ ε : Type} [Clocked σ ε] {s s' : σ} {c c' : Clock} {e : ε}

/-- A master cycle that goes well adds one to both counts, whatever they are. -/
theorem masterCycle_counted (h : masterCycle p (counted region n) s = (.ok (), c', s')) :
    c' = counted region fun t => n t + 1 := by
  rw [masterCycle_eq, turn_counted] at h
  rcases hd : deliver (dueOf region (n p.first + 1) p.first) s with ⟨e | ⟨⟩, s₁⟩
  · rw [hd] at h
    cases h
  · rw [hd] at h
    dsimp only at h
    rw [turn_counted, Function.update_of_ne p.first_ne_second.symm, counted_both] at h
    exact (congrArg (·.2.1) h).symm

theorem runCycles_counted {j : Nat} (h : runCycles p j (counted region n) s = (.ok (), c', s')) :
    c' = counted region fun t => n t + j := by
  induction j generalizing n s with
  | zero =>
    cases h
    rfl
  | succ j ih =>
    rw [runCycles] at h
    rcases hm : masterCycle p (counted region n) s with ⟨e | ⟨⟩, c₁, s₁⟩
    · rw [hm] at h
      cases h
    · rw [hm, masterCycle_counted hm] at h
      rw [ih h]
      congr 1
      funext t
      omega

/-- A call that goes well keeps to what it finds. -/
theorem run_counted (h : run p (counted region n) s = (.ok (), c', s')) :
    InLockstep c' ↔ InLockstep (counted region n) := by
  rw [runCycles_counted h]
  exact inLockstep_counted_add _

/-- A clock that a failing tick leaves has counted in each divider by itself. -/
theorem exists_stopped_eq_counted (region : Region) (p : Pace) (m : Nat) (t : Tick) :
    ∃ n, stopped region p m t = counted region n := by
  by_cases ht : t = p.second
  · exact ⟨_, if_pos ht⟩
  · exact ⟨_, if_neg ht⟩

/-- A call that begins in lockstep and is aborted is aborted by a tick `t` that is due in a master cycle
    `m + k + 1` of it, after all that came before went well.  The clock stands where that master cycle
    would have left it iff `t` is the second divider's tick; it is in lockstep at all iff it is that
    tick or the dividers have no common factor; and the calls that go well from there on, at any pace,
    neither mend the lockstep nor break it. -/
theorem aborted_inLockstep_iff (h : run p (after region m) s = (.error e, c, s')) :
    ∃ k t, k < (after region m).cyclesFor p ∧
      (∃ before rest, due region p (m + k + 1) = before ++ t :: rest ∧
        FailsAfter (merged region p m k ++ before) t s e s') ∧
      (c = after region (m + k + 1) ↔ t = p.second) ∧
      (InLockstep c ↔ t = p.second ∨ region = .pal) ∧
      ∀ p' (s₁ : σ) c' s₂, run p' c s₁ = (.ok (), c', s₂) → (InLockstep c' ↔ InLockstep c) := by
  rcases runCycles_cases region p ((after region m).cyclesFor p) m s with
    ⟨s₁, -, hr⟩ | ⟨k, before, t, rest, e₁, s₁, hk, hdue, hf, hr⟩
  · cases h.symm.trans hr
  · cases h.symm.trans hr
    have ht := p.first_or_second t
    refine ⟨k, t, hk, ⟨before, rest, hdue, hf⟩, stopped_eq_after_iff ht, inLockstep_stopped ht, ?_⟩
    intro p' s₁ c' s₂ hgoes
    obtain ⟨n, hn⟩ := exists_stopped_eq_counted region p (m + k) t
    rw [hn] at hgoes ⊢
    exact run_counted hgoes

/-- A failure stays where it is when the stretch is longer. -/
theorem runCycles_error_of_le {j n : Nat} (h : runCycles p j c s = (.error e, c', s')) (hjn : j ≤ n) :
    runCycles p n c s = (.error e, c', s') := by
  induction j generalizing n c s with
  | zero => cases h
  | succ j ih =>
    obtain ⟨n, rfl⟩ : ∃ i, n = i + 1 := ⟨n - 1, by omega⟩
    rw [runCycles] at h ⊢
    rcases hm : masterCycle p c s with ⟨e | ⟨⟩, c₁, s₁⟩
    · rw [hm] at h
      exact h
    · rw [hm] at h
      exact ih h (by omega)

/-- The third tick of a picture is the processor's: its divider has made a whole round, and the other is
    a master cycle short of one. -/
theorem run_frame_recorder :
    run .frame (after .ntsc 0) (Recorder.mk (some 2) []) =
      (.error (), ⟨.ntsc, 0, 3⟩, Recorder.mk none [.dot, .dot]) := by
  have h : runCycles .frame 12 (after .ntsc 0) (Recorder.mk (some 2) []) =
      (.error (), ⟨.ntsc, 0, 3⟩, Recorder.mk none [.dot, .dot]) := by cbv
  have hle : 12 ≤ Region.frameCycles .ntsc := by simp [Region.frameCycles]
  exact runCycles_error_of_le h hle

/-- The clock after that, where the dots come a master cycle late for good. -/
theorem aborted_inLockstep_iff_recorder :
    run .frame (after .ntsc 0) (Recorder.mk (some 2) []) =
        (.error (), ⟨.ntsc, 0, 3⟩, Recorder.mk none [.dot, .dot]) ∧
      ∃ k t, k < (after .ntsc 0).cyclesFor .frame ∧
        (∃ before rest, due .ntsc .frame (0 + k + 1) = before ++ t :: rest ∧
          FailsAfter (merged .ntsc .frame 0 k ++ before) t (Recorder.mk (some 2) []) ()
            (Recorder.mk none [.dot, .dot])) ∧
        (⟨.ntsc, 0, 3⟩ = after .ntsc (0 + k + 1) ↔ t = .dot) ∧
        (InLockstep ⟨.ntsc, 0, 3⟩ ↔ t = .dot ∨ Region.ntsc = .pal) ∧
        ∀ p' (s₁ : Recorder) c' s₂, run p' ⟨.ntsc, 0, 3⟩ s₁ = (.ok (), c', s₂) →
          (InLockstep c' ↔ InLockstep ⟨.ntsc, 0, 3⟩) :=
  ⟨run_frame_recorder, aborted_inLockstep_iff run_frame_recorder⟩

/-- No number of master cycles leaves the dividers where an abort at the processor's tick does. -/
theorem aborted_frame_skewed :
    ∃ c s', run .frame (after .ntsc 0) (Recorder.mk (some 2) []) = (.error (), c, s') ∧
      ¬ InLockstep c := by
  refine ⟨_, _, run_frame_recorder, ?_⟩
  rintro ⟨m, hcpu, hdot⟩
  have hc : 0 = m % 12 := hcpu
  have hd : 3 = m % 4 := hdot
  omega

end Clock

end Famicom
