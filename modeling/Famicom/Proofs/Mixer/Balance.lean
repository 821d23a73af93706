/-
  The mixer's account: what is noted of a channel adds up to the channel's level.

  A channel tells only how its level changes.  The mixer keeps a level of its own for each channel, which
  it brings up by the changes when an audio frame ends.  That works if no change is lost, and if none of
  the sums wraps in its sixteen bits.

  1. **Tracks**: the changes of a channel, added one by one to where it started, never leave the range of
     the channel (`Tracks`).  Then every sum of neighbours among them is exact, as the difference of two
     levels in range (`Tracks.exact_add`).
  2. **Moments**: changes noted in order of time are put together to moments that track the channel as
     well (`Tracks.merge`), and each moment is the exact sum of the changes of its cycle (`moment_exact`).
  3. **Replay**: the moments, carried out one by one, give exact levels (`Tracks.after_exact`), and the
     mixed level of five channels in range is exact, not below zero and not above 4999
     (`Levels.Playable.volume_exact`).

  Main statement: a mixer whose account is in order, and that takes a frame, has nothing noted any more
  and is at the levels that the channels are at (`Mixer.Accounts.playFrame`).
-/
import Famicom.Proofs.Mixer.Overflow

namespace Famicom

/-! ## Ranges -/

/-- The highest level of a channel. -/
def Channel.top : Channel → Int
  | .dmc => 127
  | _ => 15

/-- A level that the channel can be at. -/
def Channel.Plays (c : Channel) (level : Int) : Prop := 0 ≤ level ∧ level ≤ c.top

/-- No channel plays more than seven bits. -/
theorem Channel.top_le (c : Channel) : c.top ≤ 127 := by cases c <;> decide

/-- Every channel is at a level that it can be at. -/
def Levels.Playable (l : Levels) : Prop := ∀ c : Channel, c.Plays (l.get c).toInt

/-- Silence. -/
theorem Levels.playable_zero : Levels.Playable {} := by
  intro c
  cases c <;> exact ⟨by decide, by decide⟩

theorem Levels.get_single (c d : Channel) (x : Int16) :
    (Levels.single d x).get c = if c = d then x else 0 := by
  cases c <;> cases d <;> rfl

/-- A sum that fits into a word is exact. -/
theorem toInt_add_of_fits {a b : Int16} (h : -32768 ≤ a.toInt + b.toInt)
    (h' : a.toInt + b.toInt < 32768) : (a + b).toInt = a.toInt + b.toInt := by
  rw [Int16.toInt_add]
  exact Int.bmod_eq_of_le (by omega) (by omega)

/-- The change between two levels in range is exact. -/
theorem Channel.Plays.toInt_sub {c : Channel} {new old : Int16} (hn : c.Plays new.toInt)
    (ho : c.Plays old.toInt) : (new - old).toInt = new.toInt - old.toInt := by
  have htop := c.top_le
  obtain ⟨hn₀, hn₁⟩ := hn
  obtain ⟨ho₀, ho₁⟩ := ho
  rw [Int16.toInt_sub]
  exact Int.bmod_eq_of_le (by omega) (by omega)

namespace LevelChange

/-! ## Tracks -/

/-- What a change does to a channel, as a whole number. -/
def amount (c : Channel) (d : LevelChange) : Int := (d.amounts.get c).toInt

/-- What changes amount to for a channel. -/
def total (c : Channel) : List LevelChange → Int
  | [] => 0
  | d :: ds => amount c d + total c ds

/-- Changes that take a channel from where it started through levels that it can be at. -/
def Tracks (c : Channel) (start : Int) (changes : List LevelChange) : Prop :=
  ∀ past, past <+: changes → c.Plays (start + total c past)

variable {c : Channel} {start : Int} {d e : LevelChange} {ds es : List LevelChange}

@[simp] theorem total_nil (c : Channel) : total c [] = 0 := rfl

@[simp] theorem total_cons (c : Channel) (d : LevelChange) (ds : List LevelChange) :
    total c (d :: ds) = amount c d + total c ds := rfl

/-- The total of two lists is that of the lists put together. -/
theorem total_append (c : Channel) (ds es : List LevelChange) :
    total c (ds ++ es) = total c ds + total c es := by
  induction ds with
  | nil => exact (Int.zero_add _).symm
  | cons d ds ih => rw [List.cons_append, total_cons, total_cons, ih, Int.add_assoc]

theorem tracks_nil : Tracks c start [] ↔ c.Plays start := by
  constructor
  · intro h
    have := h [] List.nil_prefix
    rwa [total_nil, Int.add_zero] at this
  · intro h past hp
    rw [List.prefix_nil.mp hp, total_nil, Int.add_zero]
    exact h

/-- A channel is on its track if it plays each level it comes to. -/
theorem tracks_cons :
    Tracks c start (d :: ds) ↔ c.Plays start ∧ Tracks c (start + amount c d) ds := by
  constructor
  · intro h
    refine ⟨tracks_nil.mp fun past hp => h past (hp.trans List.nil_prefix), fun past hp => ?_⟩
    have := h (d :: past) (List.cons_prefix_cons.mpr ⟨rfl, hp⟩)
    rwa [total_cons, ← Int.add_assoc] at this
  · rintro ⟨h, hs⟩ past hp
    rcases List.prefix_cons_iff.mp hp with rfl | ⟨rest, rfl, hrest⟩
    · rw [total_nil, Int.add_zero]
      exact h
    · rw [total_cons, ← Int.add_assoc]
      exact hs rest hrest

/-- It plays the level it starts from. -/
theorem Tracks.plays_start (h : Tracks c start ds) : c.Plays start := by
  have := h [] List.nil_prefix
  rwa [total_nil, Int.add_zero] at this

/-- And the one it comes to in the end. -/
theorem Tracks.plays_finish (h : Tracks c start ds) : c.Plays (start + total c ds) :=
  h ds (List.prefix_refl ds)

/-- It is on its track up to any point. -/
theorem Tracks.cut (h : Tracks c start ds) (hp : es <+: ds) : Tracks c start es :=
  fun past hpast => h past (hpast.trans hp)

/-- Two tracks of which the second starts where the first ends are one. -/
theorem Tracks.append (h : Tracks c start ds) (h' : Tracks c (start + total c ds) es) :
    Tracks c start (ds ++ es) := by
  induction ds generalizing start with
  | nil =>
    rw [total_nil, Int.add_zero] at h'
    exact h'
  | cons d ds ih =>
    obtain ⟨hs, ht⟩ := tracks_cons.mp h
    rw [total_cons, ← Int.add_assoc] at h'
    exact tracks_cons.mpr ⟨hs, ih ht h'⟩

/-- No change is larger than the range of the channel. -/
theorem Tracks.amount_le (h : Tracks c start ds) (hd : d ∈ ds) :
    -c.top ≤ amount c d ∧ amount c d ≤ c.top := by
  induction ds generalizing start with
  | nil => cases hd
  | cons e ds ih =>
    obtain ⟨hs, ht⟩ := tracks_cons.mp h
    rcases List.mem_cons.mp hd with rfl | hd
    · obtain ⟨hs₀, hs₁⟩ := hs
      obtain ⟨hd₀, hd₁⟩ := ht.plays_start
      constructor
      · omega
      · omega
    · exact ih ht hd

/-- Two changes in a row add up exactly: their sum is the difference of two levels in range. -/
theorem Tracks.exact_add (h : Tracks c start (d :: e :: ds)) (cycle : Nat) :
    amount c ⟨cycle, d.amounts + e.amounts⟩ = amount c d + amount c e := by
  obtain ⟨⟨hs₀, hs₁⟩, ht⟩ := tracks_cons.mp h
  obtain ⟨he₀, he₁⟩ := (tracks_cons.mp ht).2.plays_start
  have htop := c.top_le
  unfold amount at he₀ he₁ ⊢
  rw [Levels.get_add]
  exact toInt_add_of_fits (by omega) (by omega)

/-! ## Moments -/

/-- Neighbours that are put together take the channel along the same way, with fewer stops. -/
theorem Tracks.merge (h : Tracks c start ds) :
    Tracks c start (merge ds) ∧ total c (merge ds) = total c ds := by
  induction ds generalizing start with
  | nil => exact ⟨h, rfl⟩
  | cons d ds ih =>
    obtain ⟨hs, ht⟩ := tracks_cons.mp h
    obtain ⟨hrest, htotal⟩ := ih ht
    rw [LevelChange.merge]
    cases hm : LevelChange.merge ds with
    | nil =>
      rw [hm] at hrest htotal
      refine ⟨tracks_cons.mpr ⟨hs, hrest⟩, ?_⟩
      rw [total_cons, total_cons, htotal]
    | cons e rest =>
      rw [hm] at hrest htotal
      have hall : Tracks c start (d :: e :: rest) := tracks_cons.mpr ⟨hs, hrest⟩
      dsimp only
      split
      · -- the stop between the two is left out
        have hsum := hall.exact_add d.cycle
        refine ⟨tracks_cons.mpr ⟨hs, ?_⟩, ?_⟩
        · rw [hsum, ← Int.add_assoc]
          exact (tracks_cons.mp hrest).2
        · rw [total_cons, hsum, total_cons, ← htotal, total_cons, Int.add_assoc]
      · refine ⟨hall, ?_⟩
        rw [total_cons, htotal, total_cons]

/-- Changes in order of time. -/
def Timely (changes : List LevelChange) : Prop := changes.Pairwise fun d e => d.cycle ≤ e.cycle

/-- Changes in order of time need not be sorted. -/
theorem Timely.inOrder_eq (h : Timely ds) : inOrder ds = LevelChange.merge ds := by
  unfold inOrder
  rw [List.mergeSort_of_pairwise]
  exact h.imp fun hle => decide_eq_true hle

/-- The moments come one after the other. -/
theorem Timely.merge_pairwise (h : Timely ds) :
    (LevelChange.merge ds).Pairwise fun d e => d.cycle < e.cycle := by
  induction ds with
  | nil => exact .nil
  | cons d ds ih =>
    obtain ⟨hd, hds⟩ := List.pairwise_cons.mp h
    have hle : ∀ e ∈ LevelChange.merge ds, d.cycle ≤ e.cycle := by
      intro e he
      obtain ⟨e', he', hcycle⟩ :=
        List.mem_map.mp ((mem_cycles_merge ds e.cycle).mp (List.mem_map_of_mem he))
      exact hcycle ▸ hd e' he'
    have hrest := ih hds
    rw [LevelChange.merge]
    cases hm : LevelChange.merge ds with
    | nil => exact List.pairwise_singleton _ _
    | cons e rest =>
      rw [hm] at hrest hle
      obtain ⟨he, hr⟩ := List.pairwise_cons.mp hrest
      dsimp only
      split
      · next heq => exact .cons (fun e' he' => heq ▸ he e' he') hr
      · next hne =>
        have hlt : d.cycle < e.cycle := Nat.lt_of_le_of_ne (hle e List.mem_cons_self) hne
        refine .cons ?_ hrest
        rw [List.forall_mem_cons]
        exact ⟨hlt, fun e' he' => Nat.lt_trans hlt (he e' he')⟩

/-- The changes of a cycle. -/
def ofCycle (cycle : Nat) (changes : List LevelChange) : List LevelChange :=
  changes.filter fun d => d.cycle = cycle

theorem ofCycle_cons (cycle : Nat) (d : LevelChange) (ds : List LevelChange) :
    ofCycle cycle (d :: ds) = if d.cycle = cycle then d :: ofCycle cycle ds else ofCycle cycle ds := by
  unfold ofCycle
  rw [List.filter_cons]
  simp only [decide_eq_true_eq]

theorem ofCycle_eq_nil {cycle : Nat} (h : cycle ∉ ds.map (·.cycle)) : ofCycle cycle ds = [] := by
  unfold ofCycle
  rw [List.filter_eq_nil_iff]
  intro d hd hc
  exact h (of_decide_eq_true hc ▸ List.mem_map_of_mem hd)

/-- Each moment is what the changes of its cycle amount to. -/
theorem moment_exact (h : Timely ds) (ht : Tracks c start ds) (hd : d ∈ LevelChange.merge ds) :
    amount c d = total c (ofCycle d.cycle ds) := by
  induction ds generalizing start d with
  | nil => cases hd
  | cons a ds ih =>
    have hsorted := h.merge_pairwise
    have hmerged := ht.merge.1
    obtain ⟨-, hds⟩ := List.pairwise_cons.mp h
    obtain ⟨hs, htail⟩ := tracks_cons.mp ht
    have hrest : Tracks c (start + amount c a) (LevelChange.merge ds) := htail.merge.1
    have hcycles := mem_cycles_merge ds
    rw [ofCycle_cons]
    rw [LevelChange.merge] at hd hsorted hmerged
    cases hm : LevelChange.merge ds with
    | nil =>
      rw [hm] at hd hcycles
      obtain rfl := List.mem_singleton.mp hd
      rw [if_pos rfl, ofCycle_eq_nil fun hc => List.not_mem_nil ((hcycles _).mpr hc), total_cons,
        total_nil, Int.add_zero]
    | cons e rest =>
      rw [hm] at hd hsorted hrest hcycles
      have hin : e ∈ LevelChange.merge ds := hm ▸ List.mem_cons_self
      dsimp only at hd hsorted
      split at hd
      · next heq =>
        rw [if_pos heq] at hsorted
        rcases List.mem_cons.mp hd with rfl | hd
        · -- the moment that the first change went into
          have hall : Tracks c start (a :: e :: rest) := tracks_cons.mpr ⟨hs, hrest⟩
          rw [hall.exact_add, if_pos rfl, total_cons, ih hds htail hin, heq]
        · have hlt : a.cycle < d.cycle := (List.pairwise_cons.mp hsorted).1 d hd
          rw [if_neg (Nat.ne_of_lt hlt)]
          exact ih hds htail (hm ▸ List.mem_cons_of_mem e hd)
      · next hne =>
        rw [if_neg hne] at hsorted
        have hafter := (List.pairwise_cons.mp hsorted).1
        rcases List.mem_cons.mp hd with rfl | hd
        · -- a moment of the first change alone
          have hnone : d.cycle ∉ ds.map (·.cycle) := by
            intro hc
            obtain ⟨e', he', hcycle⟩ := List.mem_map.mp ((hcycles _).mpr hc)
            exact Nat.ne_of_gt (hafter e' he') hcycle
          rw [if_pos rfl, ofCycle_eq_nil hnone, total_cons, total_nil, Int.add_zero]
        · rw [if_neg (Nat.ne_of_lt (hafter d hd))]
          exact ih hds htail (hm ▸ hd)

end LevelChange

/-! ## Replay -/

namespace Levels

/-- The levels after changes have been carried out. -/
def after (l : Levels) (changes : List LevelChange) : Levels :=
  changes.foldl (fun l d => l + d.amounts) l

/-- Levels that are brought up by the changes of a channel are exact, for that channel. -/
theorem after_exact {c : Channel} {changes : List LevelChange} {l : Levels}
    (h : LevelChange.Tracks c (l.get c).toInt changes) :
    ((l.after changes).get c).toInt = (l.get c).toInt + LevelChange.total c changes := by
  induction changes generalizing l with
  | nil => exact (Int.add_zero _).symm
  | cons d changes ih =>
    obtain ⟨-, ht⟩ := LevelChange.tracks_cons.mp h
    have hstep : ((l + d.amounts).get c).toInt = (l.get c).toInt + LevelChange.amount c d := by
      obtain ⟨h₀, h₁⟩ := ht.plays_start
      have htop := c.top_le
      unfold LevelChange.amount at h₀ h₁ ⊢
      rw [get_add]
      exact toInt_add_of_fits (by omega) (by omega)
    rw [← hstep] at ht
    rw [LevelChange.total_cons, ← Int.add_assoc, ← hstep]
    exact ih ht

/-- The volume of the pulse channels together. -/
def pulseVolume (l : Levels) : Int := groupVolume 477600 8128 (l.pulse1.toInt + l.pulse2.toInt)

/-- The volume of the other channels together. -/
def othersVolume (l : Levels) : Int :=
  groupVolume 818350 24329 (3 * l.triangle.toInt + 2 * l.noise.toInt + l.dmc.toInt)

/-- The bound of a group's volume, from one product. -/
theorem groupVolume_le {scale divisor sum bound : Int} (h : 0 ≤ scale * sum)
    (hd : 0 < divisor + 100 * sum) (hlt : scale * sum < (bound + 1) * (divisor + 100 * sum)) :
    0 ≤ groupVolume scale divisor sum ∧ groupVolume scale divisor sum ≤ bound := by
  unfold groupVolume
  rw [Int.tdiv_eq_ediv_of_nonneg h]
  exact ⟨Int.ediv_nonneg h (Int.le_of_lt hd), Int.le_of_lt_add_one (Int.ediv_lt_of_lt_mul hd hlt)⟩

/-- The pulse channels together put out 1287 at most. -/
theorem Playable.pulseVolume_le {l : Levels} (h : l.Playable) :
    0 ≤ l.pulseVolume ∧ l.pulseVolume ≤ 1287 := by
  have h₁ : 0 ≤ l.pulse1.toInt ∧ l.pulse1.toInt ≤ 15 := h .pulse1
  have h₂ : 0 ≤ l.pulse2.toInt ∧ l.pulse2.toInt ≤ 15 := h .pulse2
  exact groupVolume_le (by omega) (by omega) (by omega)

/-- The others put out 3712 at most. -/
theorem Playable.othersVolume_le {l : Levels} (h : l.Playable) :
    0 ≤ l.othersVolume ∧ l.othersVolume ≤ 3712 := by
  have ht : 0 ≤ l.triangle.toInt ∧ l.triangle.toInt ≤ 15 := h .triangle
  have hn : 0 ≤ l.noise.toInt ∧ l.noise.toInt ≤ 15 := h .noise
  have hd : 0 ≤ l.dmc.toInt ∧ l.dmc.toInt ≤ 127 := h .dmc
  exact groupVolume_le (by omega) (by omega) (by omega)

/-- The mixed level of channels in range is the sum of the two groups, and below 5000. -/
theorem Playable.volume_exact {l : Levels} (h : l.Playable) :
    l.volume.toInt = l.pulseVolume + l.othersVolume ∧
      0 ≤ l.volume.toInt ∧ l.volume.toInt ≤ 1287 + 3712 := by
  obtain ⟨hp₀, hp₁⟩ := h.pulseVolume_le
  obtain ⟨ho₀, ho₁⟩ := h.othersVolume_le
  have hv : l.volume = Int16.ofInt (l.pulseVolume + l.othersVolume) := rfl
  have hfits : (l.pulseVolume + l.othersVolume).bmod 65536 = l.pulseVolume + l.othersVolume :=
    Int.bmod_eq_of_le (by omega) (by omega)
  have hsum : l.volume.toInt = l.pulseVolume + l.othersVolume := by
    rw [hv, Int16.toInt_ofInt]
    exact hfits
  rw [hsum]
  omega

end Levels

namespace Mixer

variable {m q : Mixer}

/-- The resampler was last brought to the mixed level. -/
def Level (m : Mixer) : Prop := m.lastOutput = 4 * m.outputVolume.toInt

/-- Each moment brings the resampler to the mixed level that it leads to. -/
theorem applyChange_ok {d : LevelChange} (h : m.applyChange d = (.ok (), q)) :
    q.levels = m.levels + d.amounts ∧ q.Level := by
  unfold applyChange at h
  dsimp only at h
  split at h
  · cases h
    exact ⟨rfl, Int.mul_comm _ _⟩
  · cases h

/-- Moments that are all carried out leave nothing noted. -/
theorem applyChanges_ok {past changes : List LevelChange}
    (h : m.applyChanges past changes = (.ok (), q)) (hm : m.Level) :
    q.pending = #[] ∧ q.levels = m.levels.after changes ∧ q.Level := by
  induction changes generalizing m past with
  | nil =>
    cases h
    exact ⟨rfl, rfl, hm⟩
  | cons d rest ih =>
    unfold applyChanges at h
    dsimp only at h
    split at h
    · next p hp =>
      obtain ⟨hlevels, hp⟩ := applyChange_ok hp
      obtain ⟨hpending, hq, hlevel⟩ := ih h hp
      refine ⟨hpending, ?_, hlevel⟩
      rw [hq, hlevels]
      rfl
    · cases h

/-- A frame that is taken carries all moments out. -/
theorem playFrame_ok {time : Nat} (h : m.playFrame time = (.ok (), q)) (hm : m.Level) :
    q.pending = #[] ∧ q.levels = m.levels.after (LevelChange.inOrder m.pending.toList) ∧ q.Level := by
  rcases m.playFrame_cases time with ⟨e, p, -, hp⟩ | ⟨p, hend, hp⟩
  · cases h.symm.trans hp
  · obtain ⟨p, resampler, hc, -, rfl⟩ := endFrame_ok_iff.mp hend
    obtain ⟨hpending, hlevels, hlevel⟩ := applyChanges_ok hc hm
    cases h.symm.trans hp
    exact ⟨hpending, hlevels, hlevel⟩

/-- A mixer is retuned if the resampler takes its rates. -/
theorem retune_ok_iff : m.retune = (.ok (), q) ↔ ∃ resampler,
    m.resampler.setRates m.region.cpuRate m.settings.sampleRate = .ok resampler ∧
      q = { m with resampler } := by
  unfold retune
  cases m.resampler.setRates m.region.cpuRate m.settings.sampleRate with
  | ok resampler => simp [eq_comm]
  | error e => simp

/-- A clock that is set touches nothing but the resampler. -/
theorem retune_ok (h : m.retune = (.ok (), q)) : ∃ resampler, q = { m with resampler } := by
  obtain ⟨resampler, -, hq⟩ := retune_ok_iff.mp h
  exact ⟨resampler, hq⟩

/-! ## The account -/

/-- The account of a mixer whose channels are at these levels: what is noted is in order of time and takes
    each channel from the level that the mixer has it at to the level it is at, within its range. -/
structure Accounts (m : Mixer) (outputs : Channel → Int16) : Prop where
  timely : LevelChange.Timely m.pending.toList
  tracks : ∀ c, LevelChange.Tracks c (m.levels.get c).toInt m.pending.toList
  total : ∀ c, (m.levels.get c).toInt + LevelChange.total c m.pending.toList = (outputs c).toInt
  level : m.Level

variable {outputs : Channel → Int16}

theorem Accounts.plays (h : m.Accounts outputs) (c : Channel) : c.Plays (outputs c).toInt :=
  h.total c ▸ (h.tracks c).plays_finish

/-- Where nothing is noted, the mixer has the channels at the levels that they are at. -/
theorem accounts_of_settled (hp : m.pending = #[]) (hl : ∀ c, m.levels.get c = outputs c)
    (hplays : m.levels.Playable) (hm : m.Level) : m.Accounts outputs := by
  refine ⟨?_, fun c => ?_, fun c => ?_, hm⟩
  · rw [hp]
    exact .nil
  · rw [hp]
    exact LevelChange.tracks_nil.mpr (hplays c)
  · rw [hp, hl]
    exact Int.add_zero _

/-- A mixer at rest, and channels that are silent. -/
theorem accounts_of_silent (hp : m.pending = #[]) (hl : m.levels = {}) (ho : m.lastOutput = 0)
    (hout : ∀ c, outputs c = 0) : m.Accounts outputs := by
  refine accounts_of_settled hp (fun c => ?_) (hl ▸ Levels.playable_zero) ?_
  · rw [hl, hout]
    cases c <;> rfl
  · unfold Level outputVolume
    rw [hl, ho]
    decide

/-- All changes that are noted, in order of time, lead the levels of the mixer to where the channels
    are. -/
theorem Accounts.after_eq (h : m.Accounts outputs) (c : Channel) :
    (m.levels.after (LevelChange.inOrder m.pending.toList)).get c = outputs c := by
  obtain ⟨htracks, htotal⟩ := (h.tracks c).merge
  rw [h.timely.inOrder_eq, ← Int16.toInt_inj, Levels.after_exact htracks, htotal, h.total]

/-- A frame that is taken settles the account. -/
theorem Accounts.playFrame (h : m.Accounts outputs) {time : Nat}
    (hp : m.playFrame time = (.ok (), q)) :
    q.pending = #[] ∧ (∀ c, q.levels.get c = outputs c) ∧ q.Accounts outputs := by
  obtain ⟨hpending, hlevels, hlevel⟩ := playFrame_ok hp h.level
  have hout : ∀ c, q.levels.get c = outputs c := by
    intro c
    rw [hlevels]
    exact h.after_eq c
  refine ⟨hpending, hout, accounts_of_settled hpending hout (fun c => ?_) hlevel⟩
  rw [hout]
  exact h.plays c

end Mixer

end Famicom
