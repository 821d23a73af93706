/-
  How many cycles in a row the delta modulation channel takes from the processor.

  A cycle is taken to answer a request, and in that same cycle the channel may ask again.  A unit whose
  frame was refused has its channels at zero, so in the next cycle they run through the whole frame, and
  the channel may have played any number of bytes.  After that it is in step, and a cycle is one cycle.

  1. **A channel that was answered** (`Dmc.Answered`) has a byte, or none are left: it does not ask, whether
     it waits or not, until its timer has gone through the last bit of the byte under way.
  2. **Catching up** (`bare_catchUp_inStep`): of a channel in step the timer expires no more often than
     cycles go by.  So in one cycle it can ask again only where one bit was left, and then eight are.
  3. **The bound** (`stalls`): three cycles for a channel that is out of step, two if one bit is left, else
     the one.

  Main statement: to answer and to go one cycle on leaves fewer of them (`Settled.stalls_lt`).
-/
import Famicom.Proofs.Sound.Splitting
import Famicom.Proofs.Sound.StartDelay

namespace Famicom

namespace Dmc

variable {d : Dmc}

/-! ## A channel that was answered -/

/-- The channel does not ask, and has a byte if any are left. -/
structure Answered (d : Dmc) : Prop where
  requested : d.requested = false
  stocked : d.buffer = none → d.bytesLeft = 0

theorem answered_endSample (hr : d.requested = false) (hb : d.buffer ≠ none) : d.endSample.Answered := by
  unfold endSample
  split
  · exact ⟨hr, fun h => absurd h hb⟩
  · split
    · exact ⟨hr, fun h => absurd h hb⟩
    · exact ⟨hr, fun h => absurd h hb⟩

theorem answered_serve (h : d.requested = true) (value : UInt8) : (d.serve value).Answered := by
  rw [serve_eq, if_neg (by rw [h]; decide)]
  split
  · next hleft => exact ⟨rfl, fun _ => hleft⟩
  · split
    · exact answered_endSample rfl nofun
    · exact ⟨rfl, nofun⟩

theorem bitsLeft_endSample (d : Dmc) : d.endSample.bitsLeft = d.bitsLeft := by
  unfold endSample
  split
  · rfl
  · split
    · rfl
    · rfl

theorem bitsLeft_serve (d : Dmc) (value : UInt8) : (d.serve value).bitsLeft = d.bitsLeft := by
  rw [serve_eq]
  split
  · rfl
  · split
    · rfl
    · split
      · exact bitsLeft_endSample _
      · rfl

/-- There is no room for a byte, or there is none to ask for. -/
theorem Answered.askForByte (h : d.Answered) : d.askForByte = d := by
  refine if_neg ?_
  rintro ⟨hroom, hleft⟩
  have := h.stocked (Option.isNone_iff_eq_none.mp hroom)
  omega

theorem Answered.tickStartDelay (h : d.Answered) :
    d.tickStartDelay.Answered ∧ d.tickStartDelay.bitsLeft = d.bitsLeft := by
  have hwaited (n : Nat) : ({ d with startDelay := n } : Dmc).Answered := ⟨h.requested, h.stocked⟩
  unfold Dmc.tickStartDelay
  split
  · exact ⟨h, rfl⟩
  · rw [(hwaited 0).askForByte]
    exact ⟨hwaited 0, rfl⟩
  · exact ⟨hwaited _, rfl⟩

theorem requested_playBit (d : Dmc) : d.playBit.requested = d.requested := by
  unfold playBit
  split
  · rfl
  · rfl

theorem bitsLeft_playBit (d : Dmc) : d.playBit.bitsLeft = d.bitsLeft := by
  unfold playBit
  split
  · rfl
  · rfl

/-- Within a byte an expiry asks for nothing. -/
theorem requested_expired (h : d.bitsLeft ≠ 1) : d.expired.requested = d.requested := by
  unfold expired
  rw [if_neg (by rw [bitsLeft_playBit]; exact h)]
  exact requested_playBit d

/-- After the last bit of a byte come eight. -/
theorem bitsLeft_expired (h : d.bitsLeft = 1) : d.expired.bitsLeft = 8 := by
  have hask (q : Dmc) : q.askForByte.bitsLeft = q.bitsLeft := by
    unfold Dmc.askForByte
    split
    · rfl
    · rfl
  unfold expired
  rw [if_pos (by rw [bitsLeft_playBit]; exact h)]
  unfold nextByte
  split
  · rfl
  · exact hask _

end Dmc

namespace Sound

variable {s : Sound}

/-! ## Catching up -/

/-- While a unit whose channel is in step catches up: so many cycles are left, and the channel's timer has
    expired no more often than cycles have gone by. -/
structure Pacing (s : Sound) (left : Nat) (q : Sound) : Prop where
  previous : q.previous + left = s.current
  inStep : q.dmc.timer.previous = q.previous
  expired : ∃ n, n + left ≤ s.current - s.previous ∧ q.dmc.bare = s.dmc.bare.after (.replicate n .expire)

theorem Pacing.advance {left taken : Nat} {q : Sound} (h : Pacing s left q) (event : Option FrameEvent)
    (hle : taken ≤ left) : Pacing s (left - taken) (advance taken event q) := by
  obtain ⟨hp, -, hat, -⟩ := advance_spec taken event q
  obtain ⟨-, -, -, -, hdmc⟩ := channelsAt_iff.mp hat
  obtain ⟨n, hn, hbare⟩ := h.expired
  have hprevious := h.previous
  have hinStep := h.inStep
  have hexpiries := q.dmc.timer.expiries_le (q.previous + taken)
  refine ⟨by omega, hdmc.trans hp.symm, n + q.dmc.timer.expiries (q.previous + taken), by omega, ?_⟩
  rw [bare_advance, hbare, ← Dmc.after_append, List.replicate_append_replicate]

/-- Of a channel in step the timer expires no more often than cycles go by. -/
theorem bare_catchUp_inStep (hp : s.previous ≤ s.current) (h : s.dmc.timer.previous = s.previous) :
    ∃ n ≤ s.current - s.previous, s.catchUp.dmc.bare = s.dmc.bare.after (.replicate n .expire) := by
  have hstart : Pacing s (s.current - s.previous) s := ⟨by omega, h, 0, by omega, rfl⟩
  obtain ⟨-, -, n, hn, hbare⟩ := FrameCounter.drive_inv (P := Pacing s)
    (fun _ _ event _ hle h => h.advance event hle) (s.current - s.previous) s.frameCounter hstart
  exact ⟨n, by omega, hbare⟩

/-- After a cycle that is not refused the channel is in step. -/
theorem Settled.process_inStep (h : s.Settled) (hok : s.process.1 = .ok ()) :
    s.process.2.dmc.timer.previous = s.process.2.current := by
  have hp := h.previous
  rcases s.process_eq with he | he
  · rw [he] at hok ⊢
    rcases endFrame_spec { s with current := s.current + 1 } with
      ⟨-, hcurrent, -, hat⟩ | ⟨e, mixer, hrefused⟩
    · obtain ⟨-, -, -, -, hdmc⟩ := channelsAt_iff.mp hat
      exact hdmc.trans hcurrent.symm
    · rw [hrefused] at hok
      cases hok
  · rw [he]
    obtain ⟨-, hcurrent, hat, -⟩ := catchUp_spec
      (s := { s with current := s.current + 1, dmc := s.dmc.tickStartDelay })
      (show s.previous < s.current + 1 by omega)
    obtain ⟨-, -, -, -, hdmc⟩ := channelsAt_iff.mp hat
    exact hdmc.trans hcurrent.symm

/-- A cycle of a unit in step whose channel was just answered: its timer expires once at most. -/
theorem Settled.process_answered (h : s.Settled) (hin : s.dmc.timer.previous = s.current)
    (ha : s.dmc.Answered) : ∃ d : Dmc, d.Answered ∧ d.bitsLeft = s.dmc.bitsLeft ∧
      (s.process.2.dmc.bare = d.bare ∨ s.process.2.dmc.bare = d.bare.expired) := by
  have hp := h.previous
  have hcatch (q : Sound) (hprevious : q.previous = s.previous) (hcurrent : q.current = s.current + 1)
      (htimer : q.dmc.timer = s.dmc.timer) :
      q.catchUp.dmc.bare = q.dmc.bare ∨ q.catchUp.dmc.bare = q.dmc.bare.expired := by
    obtain ⟨n, hn, hbare⟩ := bare_catchUp_inStep (s := q) (by omega) (by rw [htimer]; omega)
    rw [hbare]
    match n with
    | 0 => exact .inl rfl
    | 1 => exact .inr rfl
    | n + 2 => omega
  rcases s.process_eq with he | he
  · rw [he, bare_endFrame, ← bare_catchUp]
    exact ⟨s.dmc, ha, rfl, hcatch { s with current := s.current + 1 } rfl rfl rfl⟩
  · obtain ⟨hwaited, hbits⟩ := ha.tickStartDelay
    rw [he]
    exact ⟨s.dmc.tickStartDelay, hwaited, hbits, hcatch
      { s with current := s.current + 1, dmc := s.dmc.tickStartDelay } rfl rfl
      s.dmc.kept_tickStartDelay.timer⟩

/-! ## The bound -/

/-- A bound on the cycles in a row that the channel takes from now on. -/
def stalls (s : Sound) : Nat :=
  if s.dmc.requested = false then 0
  else if s.dmc.timer.previous ≠ s.current then 3
  else if s.dmc.bitsLeft = 1 then 2
  else 1

theorem stalls_le (s : Sound) : s.stalls ≤ 3 := by
  unfold stalls
  split
  · omega
  · split
    · omega
    · split <;> omega

theorem serve_record (s : Sound) (value : UInt8) : s.serve value = { s with dmc := s.dmc.serve value } := by
  unfold serve Dmc.serve takeDmcRequest
  dsimp only
  rcases s.dmc.takeRequest with ⟨_ | _, d⟩
  · rfl
  · rfl

theorem Settled.serve (h : s.Settled) (value : UInt8) : (s.serve value).Settled := by
  rw [serve_record]
  refine h.congr rfl rfl fun hat => ?_
  obtain ⟨h₁, h₂, h₃, h₄, h₅⟩ := channelsAt_iff.mp hat
  exact channelsAt_iff.mpr ⟨h₁, h₂, h₃, h₄, (s.dmc.kept_serve value).timer ▸ h₅⟩

/-- With a request answered and the cycle gone by, fewer are left. -/
theorem Settled.stalls_lt (h : s.Settled) (hreq : s.dmc.requested = true) {value : UInt8}
    (hok : (s.serve value).process.1 = .ok ()) : (s.serve value).process.2.stalls < s.stalls := by
  have hstep := (h.serve value).process_inStep hok
  have hnot : ¬ s.dmc.requested = false := by
    rw [hreq]
    decide
  unfold stalls
  rw [if_neg hnot, if_neg (not_not_intro hstep)]
  by_cases hin : s.dmc.timer.previous = s.current
  · have hserved : (s.serve value).dmc.timer.previous = (s.serve value).current := by
      rw [serve_record]
      exact (congrArg Timer.previous (s.dmc.kept_serve value).timer).trans hin
    obtain ⟨d, ha, hbits, hbare⟩ := (h.serve value).process_answered hserved (by
      rw [serve_record]
      exact Dmc.answered_serve hreq value)
    rw [serve_record, Dmc.bitsLeft_serve] at hbits
    rw [if_neg (not_not_intro hin)]
    rcases hbare with hbare | hbare
    · -- no expiry, so no request
      have hquiet : (s.serve value).process.2.dmc.requested = false :=
        (congrArg Dmc.requested hbare).trans ha.requested
      rw [if_pos hquiet]
      split <;> omega
    · by_cases hlast : s.dmc.bitsLeft = 1
      · -- the byte is played, and the next one has all its bits left
        have hnext : (s.serve value).process.2.dmc.bitsLeft = 8 :=
          (congrArg Dmc.bitsLeft hbare).trans (Dmc.bitsLeft_expired (d := d.bare) (hbits.trans hlast))
        rw [if_pos hlast, if_neg (show ¬ (s.serve value).process.2.dmc.bitsLeft = 1 by omega)]
        split <;> omega
      · -- an expiry within the byte
        have hquiet : (s.serve value).process.2.dmc.requested = false :=
          (congrArg Dmc.requested hbare).trans ((Dmc.requested_expired (d := d.bare)
            (fun hone => hlast (hbits.symm.trans hone))).trans ha.requested)
        rw [if_pos hquiet, if_neg hlast]
        omega
  · -- whatever it caught up on, it is in step now
    rw [if_pos hin]
    split
    · omega
    · split <;> omega

end Sound

end Famicom
