/-
  How the delta modulation channel fetches the bytes of a sample.

  A request is raised in two places, at the end of the wait after the start of a sample and when the
  buffer's byte is begun, and it can be left behind by a sample that is dropped and started anew before
  it is served.

  1. **Order** (`Orderly`): a request finds the buffer empty, and it is for the upper half of memory, as
     are the bytes that are left.  Every part of a move keeps this.
  2. **No fetch is forgotten** (`Fetching`): where bytes are left and the buffer is empty, a request is
     there or the wait is running.  It fails only in the middle of a move, between the emptying of the
     buffer and the request (`Orderly.askForByte`).
  3. **Moves** (`Fetching.step`), one case each, and by induction every run of moves from power-on
     (`fetching_after`).
-/
import Famicom.Proofs.Sound.DmcMoves
import Famicom.Proofs.Words

namespace Famicom.Dmc

/-- Requests find the buffer empty and are for the upper half of memory. -/
structure Orderly (d : Dmc) : Prop where
  room : d.requested = true → d.buffer = none
  upper : 0 < d.bytesLeft ∨ d.requested = true → 0x8000 ≤ d.address
  sampleUpper : 0x8000 ≤ d.sampleAddress
  sampleLength_pos : 0 < d.sampleLength
  bits_pos : 1 ≤ d.bitsLeft
  bits_le : d.bitsLeft ≤ 8

/-- Besides, no byte that is left is waited for without a request or a wait. -/
structure Fetching (d : Dmc) : Prop extends Orderly d where
  awaited : 0 < d.bytesLeft → d.buffer = none → d.requested = true ∨ 0 < d.startDelay

variable {d : Dmc}

theorem fetching_powerOn : powerOn.Fetching := by
  refine ⟨⟨?_, ?_, ?_, ?_, ?_, ?_⟩, ?_⟩ <;> decide

/-! ## Parts of a move -/

/-- A channel in order that asks for a byte does so at the next address of its sample. -/
theorem Orderly.askForByte (h : d.Orderly) : d.askForByte.Fetching := by
  unfold Dmc.askForByte
  split
  · next hask =>
    obtain ⟨hroom, hleft⟩ := hask
    exact { h with
      room := fun _ => Option.isNone_iff_eq_none.mp hroom
      upper := fun _ => h.upper (.inl hleft)
      awaited := fun _ _ => .inl rfl }
  · next hask =>
    refine { h with awaited := ?_ }
    intro hleft hroom
    exact absurd ⟨Option.isNone_iff_eq_none.mpr hroom, hleft⟩ hask

/-- The bit that is played has no part in the fetching. -/
theorem Fetching.playBit (h : d.Fetching) : d.playBit.Fetching := by
  unfold Dmc.playBit
  split
  · exact h
  · exact { h with }

theorem Fetching.nextByte (h : d.Fetching) : d.nextByte.Fetching := by
  unfold Dmc.nextByte
  split
  · exact { h with }
  · exact Orderly.askForByte { h with room := fun _ => rfl }

/-- An expiry keeps what is fetched in order. -/
theorem Fetching.expired (h : d.Fetching) : d.expired.Fetching := by
  have hplay := h.playBit
  have hpos := hplay.bits_pos
  have hle := hplay.bits_le
  unfold Dmc.expired
  split
  · have hfull : Fetching { d.playBit with bitsLeft := 8 } :=
      { hplay with bits_pos := Nat.succ_pos 7, bits_le := Nat.le_refl 8 }
    exact hfull.nextByte
  · exact { hplay with
      bits_pos := by show 1 ≤ d.playBit.bitsLeft - 1; omega
      bits_le := by show d.playBit.bitsLeft - 1 ≤ 8; omega }

/-- Switching the channel on or off does so too. -/
theorem Fetching.setEnabled (h : d.Fetching) (on : Bool) : (d.setEnabled on).Fetching := by
  unfold Dmc.setEnabled
  split
  · refine { h with upper := ?_, awaited := ?_ }
    · rintro (hleft | hreq)
      · exact absurd hleft (Nat.lt_irrefl 0)
      · exact h.upper (.inr hreq)
    · intro hleft
      exact absurd hleft (Nat.lt_irrefl 0)
  · split
    · exact { h with upper := fun _ => h.sampleUpper, awaited := fun _ _ => .inr (Nat.succ_pos 1) }
    · exact h

theorem Fetching.tickStartDelay (h : d.Fetching) : d.tickStartDelay.Fetching := by
  unfold Dmc.tickStartDelay
  split
  · exact h
  · exact Orderly.askForByte { h with }
  · exact { h with awaited := fun _ _ => .inr (Nat.succ_pos _) }

/-- The address after the last is back in the upper half of memory. -/
theorem nextAddress_upper {address : UInt16} (h : 0x8000 ≤ address) : 0x8000 ≤ nextAddress address := by
  unfold nextAddress
  split
  · decide
  · next hne => grind

/-- At the end of a sample either nothing is left to fetch or the sample begins again. -/
theorem Orderly.endSample (h : d.Orderly) (hbuffer : d.buffer ≠ none) (hreq : d.requested = false) :
    d.endSample.Fetching := by
  unfold Dmc.endSample
  split
  · exact { h with
      room := fun hr => absurd hr (Bool.eq_false_iff.mp hreq)
      upper := fun _ => h.sampleUpper
      awaited := fun _ hb => absurd hb hbuffer }
  · split
    · exact { h with awaited := fun _ hb => absurd hb hbuffer }
    · exact { h with awaited := fun _ hb => absurd hb hbuffer }

/-- A byte that comes in was asked for, so the buffer was empty, and no request is left. -/
theorem Fetching.serve (h : d.Fetching) (value : UInt8) : (d.serve value).Fetching := by
  rw [serve_eq]
  split
  · exact h
  · next hreq =>
    replace hreq : d.requested = true := Bool.not_eq_false _ ▸ hreq
    split
    · next hleft =>
      refine { h with
        room := fun hr => absurd hr Bool.false_ne_true
        upper := ?_
        awaited := fun hpos => absurd hleft (Nat.ne_of_gt hpos) }
      rintro (hpos | hr)
      · exact absurd hleft (Nat.ne_of_gt hpos)
      · exact absurd hr Bool.false_ne_true
    · have hnext := nextAddress_upper (h.upper (.inr hreq))
      have htaking : (d.taking value).Orderly :=
        { h with room := fun hr => absurd hr Bool.false_ne_true, upper := fun _ => hnext }
      split
      · exact htaking.endSample (Option.some_ne_none value) rfl
      · exact { htaking with awaited := fun _ hb => absurd hb (Option.some_ne_none value) }

/-- Every address that can be written for a sample is in the upper half of memory. -/
theorem sampleAddress_upper (data : UInt8) :
    (0x8000 : UInt16) ≤ 0xC000 ||| (data.toUInt16 <<< (6 : UInt16)) := by
  revert data
  refine forall_byte ?_
  decide +kernel

/-! ## Moves -/

/-- Every move keeps what is fetched in order. -/
theorem Fetching.step (h : d.Fetching) (m : Move) : (d.step m).Fetching := by
  cases m with
  | expire => exact h.expired
  | control data => exact { h with }
  | level data => exact { h with }
  | address data => exact { h with sampleUpper := sampleAddress_upper data }
  | length data => exact { h with sampleLength_pos := Nat.succ_pos _ }
  | enable on =>
    have hcleared : Fetching { d with irq := false } := { h with }
    exact hcleared.setEnabled on
  | wait => exact h.tickStartDelay
  | serve value => exact h.serve value

/-- So do any number of moves. -/
theorem Fetching.after (h : d.Fetching) (moves : List Move) : (d.after moves).Fetching := by
  induction moves generalizing d with
  | nil => exact h
  | cons m moves ih => exact ih (h.step m)

end Famicom.Dmc
