/-
  Bringing a channel up to a cycle in several calls.

  A channel does something at the expiries of its timer alone, and what it does there depends on its state
  and on the cycle of the expiry, not on the cycle that was asked for.  So it makes no difference at which
  cycles on the way the channel has been brought up to date.

  1. **A timer** that has waited for a while expires where it would have expired anyway
     (`Timer.drive_waited`), so going to one cycle and from there to a later one passes the same expiries
     as going there at once (`Timer.drive_drive`), of which there is at most one for each cycle
     (`Timer.expiries_le`).
  2. **A channel** is its timer and the rest (`TimedChannel`).  In the midst of a call the rest is carried
     along with the timer from before the call; an expiry looks at nothing of the timer but its period,
     which stays (`TimedChannel.drive_setTimer`).  One instance for each of the four kinds.
  3. **A call** may be cut in two (`TimedChannel.run_run`), so it may be cut into single cycles
     (`TimedChannel.run_eq_clock`).

  Main statement: all of this holds of each kind of channel (`channels_catchUp`).
-/
import Famicom.Proofs.Sound.ChannelRanges
import Famicom.Proofs.Sound.DmcMoves
import Famicom.Proofs.Sound.OneCycle

namespace Famicom

/-! ## Timers -/

namespace Timer

variable {σ : Type} {expire : Nat → σ → σ} {t t' : Timer} {s : σ} {target c₁ c₂ : Nat}

theorem drive_of_expiry (h : t.advance target = (true, t')) :
    t.drive expire target s = t'.drive expire target (expire t'.previous s) := by
  rw [drive]
  split
  · next t'' h' =>
    cases h.symm.trans h'
    rfl
  · next t'' h' => cases h.symm.trans h'

theorem drive_of_wait (h : t.advance target = (false, t')) : t.drive expire target s = (t', s) := by
  rw [drive]
  split
  · next t'' h' => cases h.symm.trans h'
  · next t'' h' =>
    cases h.symm.trans h'
    rfl

/-- An expiry before a cycle is one before any later cycle. -/
theorem advance_later (h : t.advance c₁ = (true, t')) (hle : c₁ ≤ c₂) : t.advance c₂ = (true, t') := by
  unfold advance at h ⊢
  split at h
  · cases h
    exact if_pos (by omega)
  · cases h

/-- Having waited up to a cycle makes no difference. -/
theorem drive_waited (h : t.advance c₁ = (false, t')) (hp : t.previous ≤ c₁) (hle : c₁ ≤ c₂) :
    t'.drive expire c₂ s = t.drive expire c₂ s := by
  unfold advance at h
  split at h
  · cases h
  · next hwait =>
    cases h
    by_cases hexpiry : t.counter < c₂ - t.previous
    · have ht : t.advance c₂ =
          (true, { t with previous := t.previous + t.counter + 1, counter := t.period.toNat }) :=
        if_pos hexpiry
      have hplace : c₁ + (t.counter - (c₁ - t.previous)) + 1 = t.previous + t.counter + 1 := by omega
      rw [drive_of_expiry ht, drive_of_expiry (if_pos (by dsimp only; omega)), hplace]
    · have ht : t.advance c₂ = (false, { t with previous := c₂, counter := t.counter - (c₂ - t.previous) }) :=
        if_neg hexpiry
      have hleft : t.counter - (c₁ - t.previous) - (c₂ - c₁) = t.counter - (c₂ - t.previous) := by omega
      rw [drive_of_wait ht, drive_of_wait (if_neg (by dsimp only; omega)), hleft]

/-- A way may be cut in two. -/
theorem drive_drive (hp : t.previous ≤ c₁) (hle : c₁ ≤ c₂) :
    (t.drive expire c₁ s).1.drive expire c₂ (t.drive expire c₁ s).2 = t.drive expire c₂ s := by
  induction t, s using Timer.drive.induct expire c₁ with
  | case1 t s t' h _ ih =>
    rw [drive_of_expiry h, drive_of_expiry (advance_later h hle)]
    exact ih (advance_lt h).2
  | case2 t s t' h =>
    rw [drive_of_wait h]
    exact drive_waited h hp hle

/-- There is at most one expiry for each cycle. -/
theorem expiries_le (t : Timer) (target : Nat) : t.expiries target ≤ target - t.previous := by
  have hcount (t : Timer) (n : Nat) :
      (t.drive (fun _ n => n + 1) target n).2 ≤ n + (target - t.previous) := by
    induction t, n using Timer.drive.induct (fun _ n => n + 1) target with
    | case1 t n t' h _ ih =>
      obtain ⟨hlt, hle⟩ := advance_lt h
      rw [drive_of_expiry h]
      omega
    | case2 t n t' h =>
      rw [drive_of_wait h]
      exact Nat.le_add_right n _
  simpa [expiries] using hcount t 0

end Timer

/-! ## Channels -/

/-- A channel that is brought up to a cycle by its timer: it does something at each expiry. -/
class TimedChannel (α : Type) extends SoundChannel α where
  timer : α → Timer
  setTimer : Timer → α → α
  expire : Nat → α × Mixer → α × Mixer
  setTimer_timer (c : α) : setTimer (timer c) c = c
  timer_setTimer (t : Timer) (c : α) : timer (setTimer t c) = t
  setTimer_setTimer (t t' : Timer) (c : α) : setTimer t (setTimer t' c) = setTimer t c
  /-- The timer goes on, and is put in place at the end. -/
  run_eq (c : α) (target : Nat) (m : Mixer) : run c target m =
    let r := (timer c).drive expire target (c, m)
    (setTimer r.1 r.2.1, r.2.2)
  timer_expire (cycle : Nat) (c : α) (m : Mixer) : timer (expire cycle (c, m)).1 = timer c
  /-- Nothing of the timer but its period is looked at. -/
  expire_setTimer (cycle : Nat) (t : Timer) (c : α) (m : Mixer) : t.period = (timer c).period →
    expire cycle (setTimer t c, m) = ((setTimer t (expire cycle (c, m)).1), (expire cycle (c, m)).2)

namespace Pulse

instance : TimedChannel Pulse where
  timer := Pulse.timer
  setTimer t p := { p with timer := t }
  expire := expire
  setTimer_timer _ := rfl
  timer_setTimer _ _ := rfl
  setTimer_setTimer _ _ _ := rfl
  run_eq _ _ _ := rfl
  timer_expire _ _ _ := rfl
  expire_setTimer _ _ _ _ _ := rfl

end Pulse

namespace Noise

instance : TimedChannel Noise where
  timer := Noise.timer
  setTimer t n := { n with timer := t }
  expire := expire
  setTimer_timer _ := rfl
  timer_setTimer _ _ := rfl
  setTimer_setTimer _ _ _ := rfl
  run_eq _ _ _ := rfl
  timer_expire _ _ _ := rfl
  expire_setTimer _ _ _ _ _ := rfl

end Noise

namespace Triangle

/-- The channel with another timer. -/
def setTimer (timer : Timer) (t : Triangle) : Triangle := { t with timer }

theorem timer_expire (cycle : Nat) (t : Triangle) (m : Mixer) :
    (expire cycle (t, m)).1.timer = t.timer := by
  unfold expire
  dsimp only
  split
  · split
    · rfl
    · rfl
  · rfl

/-- Whether the mixer is told hangs on the period. -/
theorem expire_setTimer (cycle : Nat) (timer : Timer) (t : Triangle) (m : Mixer)
    (h : timer.period = t.timer.period) : expire cycle (setTimer timer t, m) =
      (setTimer timer (expire cycle (t, m)).1, (expire cycle (t, m)).2) := by
  unfold expire setTimer
  dsimp only
  rw [h]
  split
  · split
    · rfl
    · rfl
  · rfl

instance : TimedChannel Triangle where
  timer := Triangle.timer
  setTimer := setTimer
  expire := expire
  setTimer_timer _ := rfl
  timer_setTimer _ _ := rfl
  setTimer_setTimer _ _ _ := rfl
  run_eq _ _ _ := rfl
  timer_expire := timer_expire
  expire_setTimer := expire_setTimer

end Triangle

namespace Dmc

/-- The channel with another timer. -/
def setTimer (timer : Timer) (d : Dmc) : Dmc := { d with timer }

theorem playBit_setTimer (timer : Timer) (d : Dmc) :
    (setTimer timer d).playBit = setTimer timer d.playBit := by
  unfold playBit
  rw [apply_ite (setTimer timer)]
  rfl

theorem askForByte_setTimer (timer : Timer) (d : Dmc) :
    (setTimer timer d).askForByte = setTimer timer d.askForByte := by
  unfold askForByte
  rw [apply_ite (setTimer timer)]
  rfl

theorem nextByte_setTimer (timer : Timer) (d : Dmc) :
    (setTimer timer d).nextByte = setTimer timer d.nextByte := by
  unfold nextByte
  rw [show (setTimer timer d).buffer = d.buffer from rfl]
  cases d.buffer with
  | none => rfl
  | some byte => exact askForByte_setTimer timer { d with silent := false, shift := byte, buffer := none }

theorem expired_setTimer (timer : Timer) (d : Dmc) :
    (setTimer timer d).expired = setTimer timer d.expired := by
  unfold expired
  rw [playBit_setTimer, apply_ite (setTimer timer), ← nextByte_setTimer]
  rfl

theorem timer_expired (d : Dmc) : d.expired.timer = d.timer := by
  have hbit : d.playBit.timer = d.timer := (kept_playBit d).timer
  unfold expired
  split
  · exact (kept_nextByte { d.playBit with bitsLeft := 8 }).timer.trans hbit
  · exact hbit

theorem expire_eq (cycle : Nat) (d : Dmc) (m : Mixer) : expire cycle (d, m) = d.expired.updateAt cycle m := rfl

instance : TimedChannel Dmc where
  timer := Dmc.timer
  setTimer := setTimer
  expire := expire
  setTimer_timer _ := rfl
  timer_setTimer _ _ := rfl
  setTimer_setTimer _ _ _ := rfl
  run_eq _ _ _ := rfl
  timer_expire _ d _ := timer_expired d
  expire_setTimer cycle timer d m _ := by
    rw [expire_eq, expire_eq, expired_setTimer]
    rfl

end Dmc

/-! ## Calls -/

namespace TimedChannel

open SoundChannel (run)

variable {α : Type} [TimedChannel α] {m : Mixer} {target c₁ c₂ : Nat}

/-- The first has another timer in its place, of the same period. -/
def Retimed (t : Timer) (s u : α × Mixer) : Prop :=
  s = (setTimer t u.1, u.2) ∧ t.period = (timer u.1).period

theorem Retimed.expire {t : Timer} {s u : α × Mixer} (h : Retimed t s u) (cycle : Nat) :
    Retimed t (expire cycle s) (expire cycle u) := by
  obtain ⟨c, m⟩ := u
  obtain ⟨rfl, hperiod⟩ := h
  exact ⟨expire_setTimer cycle t c m hperiod, hperiod.trans (by rw [timer_expire])⟩

/-- The channel is driven alike with its timer put in place and with the one from before. -/
theorem drive_setTimer (t t' : Timer) (c : α) (m : Mixer) (target : Nat)
    (h : t'.period = (timer c).period) :
    (t.drive expire target (setTimer t' c, m)).1 = (t.drive expire target (c, m)).1 ∧
      (t.drive expire target (setTimer t' c, m)).2 =
        (setTimer t' (t.drive expire target (c, m)).2.1, (t.drive expire target (c, m)).2.2) := by
  obtain ⟨ht, hs, -⟩ := Timer.drive_rel (R := Retimed t') (s := (setTimer t' c, m)) (u := (c, m))
    (fun cycle _ _ hs => hs.expire cycle) target t ⟨rfl, h⟩
  exact ⟨ht, hs⟩

theorem timer_drive (t : Timer) (c : α) (m : Mixer) (target : Nat) :
    timer (t.drive expire target (c, m)).2.1 = timer c := by
  refine Timer.drive_inv (P := fun s : α × Mixer => timer s.1 = timer c) ?_ target t rfl
  rintro cycle ⟨q, m⟩ h
  exact (timer_expire cycle q m).trans h

/-- A channel stands where it was sent. -/
theorem previous_run (c : α) (target : Nat) (m : Mixer) : (timer (run c target m).1).previous = target := by
  rw [run_eq]
  dsimp only
  rw [timer_setTimer]
  exact Timer.drive_previous _ _ _ _

theorem run_self (c : α) (m : Mixer) : run c (timer c).previous m = (c, m) := by
  rw [run_eq, Timer.drive_self rfl]
  dsimp only
  rw [setTimer_timer]

/-- A call may be cut in two. -/
theorem run_run (c : α) (m : Mixer) (hp : (timer c).previous ≤ c₁) (hle : c₁ ≤ c₂) :
    run (run c c₁ m).1 c₂ (run c c₁ m).2 = run c c₂ m := by
  have hway : ((timer c).drive expire c₁ (c, m)).1.drive expire c₂ ((timer c).drive expire c₁ (c, m)).2 =
      (timer c).drive expire c₂ (c, m) := Timer.drive_drive hp hle
  rw [run_eq (run c c₁ m).1, run_eq c c₁, run_eq c c₂]
  dsimp only
  rw [timer_setTimer]
  generalize hr : (timer c).drive expire c₁ (c, m) = r at hway ⊢
  have hperiod : r.1.period = (timer r.2.1).period := by
    rw [← hr, timer_drive]
    exact Timer.drive_period _ _ _ _
  obtain ⟨ht, hs⟩ := drive_setTimer r.1 r.1 r.2.1 r.2.2 c₂ hperiod
  rw [ht, hs, setTimer_setTimer]
  show (setTimer (r.1.drive expire c₂ r.2).1 (r.1.drive expire c₂ r.2).2.1,
    (r.1.drive expire c₂ r.2).2.2) = _
  rw [hway]

/-- Brings the channel one cycle on. -/
def clock (s : α × Mixer) : α × Mixer := run s.1 ((timer s.1).previous + 1) s.2

/-- So many cycles in one call are that many single ones. -/
theorem run_eq_clock (c : α) (m : Mixer) (n : Nat) :
    run c ((timer c).previous + n) m = clock^[n] (c, m) := by
  induction n with
  | zero => exact run_self c m
  | succ n ih =>
    rw [Function.iterate_succ_apply', ← ih, clock, previous_run, Nat.add_assoc]
    exact (run_run c m (Nat.le_add_right _ n) (Nat.add_le_add_left (Nat.le_succ n) _)).symm

/-- A kind of channel for which it makes no difference in how many calls a cycle is reached. -/
structure CatchesUp (α : Type) [TimedChannel α] : Prop where
  /-- Going to a cycle by way of an earlier one leaves the same channel, and notes the same changes. -/
  split (c : α) (m : Mixer) (c₁ c₂ : Nat) : (timer c).previous ≤ c₁ → c₁ ≤ c₂ →
    run (run c c₁ m).1 c₂ (run c c₁ m).2 = run c c₂ m
  /-- So does going there one cycle at a time. -/
  cycles (c : α) (m : Mixer) (target : Nat) : (timer c).previous ≤ target →
    run c target m = clock^[target - (timer c).previous] (c, m)
  /-- On the way the timer expires at most once for each cycle, and then the channel stands there. -/
  ends (c : α) (m : Mixer) (target : Nat) : (timer c).expiries target ≤ target - (timer c).previous ∧
    (timer (run c target m).1).previous = target

theorem catchesUp (α : Type) [TimedChannel α] : CatchesUp α where
  split c m c₁ c₂ hp hle := run_run c m hp hle
  cycles c m target hle := by rw [← run_eq_clock, Nat.add_sub_cancel' hle]
  ends c m target := ⟨Timer.expiries_le _ target, previous_run c target m⟩

end TimedChannel

open TimedChannel (CatchesUp catchesUp)

/-- It makes no difference in how many calls a channel is brought up to a cycle, for any of the four
    kinds. -/
theorem channels_catchUp : CatchesUp Pulse ∧ CatchesUp Triangle ∧ CatchesUp Noise ∧ CatchesUp Dmc :=
  ⟨catchesUp Pulse, catchesUp Triangle, catchesUp Noise, catchesUp Dmc⟩

/-- The delta modulation channel from power-on, with a stop on the way. -/
theorem channels_catchUp_dmc : (Dmc.new .ntsc).timer.previous ≤ 500 ∧ 500 ≤ 1000 ∧
    ((Dmc.new .ntsc).run 500 (Sound.shortRun 0).mixer).1.run 1000
        ((Dmc.new .ntsc).run 500 (Sound.shortRun 0).mixer).2 =
      (Dmc.new .ntsc).run 1000 (Sound.shortRun 0).mixer ∧
    (Dmc.new .ntsc).run 1000 (Sound.shortRun 0).mixer =
      TimedChannel.clock^[1000] (Dmc.new .ntsc, (Sound.shortRun 0).mixer) := by
  obtain ⟨-, -, -, hdmc⟩ := channels_catchUp
  have hstart : (Dmc.new .ntsc).timer.previous ≤ 500 := Nat.zero_le 500
  exact ⟨hstart, by decide, hdmc.split _ _ 500 1000 hstart (by decide),
    hdmc.cycles _ _ 1000 (Nat.zero_le 1000)⟩

end Famicom
