/-
  Lockstep: both dividers of the clock count the same master cycles.

  After `m` master cycles the clock of a region stands at `m` modulo each divider (`Clock.after`).  The
  ticks it has handed out are then those of two periodic rows, merged: a tick is due in every master
  cycle whose number its divider divides (`due`), and the pace of a call says which of two in one
  master cycle comes first.

  1. **One divider** (`turn_counted`): in a master cycle it hands out its tick iff the tick is due.
  2. **One master cycle** (`masterCycle_cases`): all that is due is handed out and both dividers have
     counted; or a tick has failed, and a divider that would have counted after it has not.
  3. **A stretch** (`runCycles_cases`): by induction the same, for both rows merged (`merged`).
  4. **A call** (`Call`): it takes the master cycles of its pace.  At a pace that ends at a tick these
     are those of the loop that goes on until the tick (`Loops`), which ends because the next multiple
     of a divider is never further off than the divider.

  Main statement: calls in any mix keep the clock at the count of the master cycles that they have taken
  in all, and what they hand out is the merge of both rows up to there (`runAll_lockstep`).
-/
import Mathlib.Logic.Function.Basic
import Famicom.Clock

namespace Famicom

/-- What the clock hands out. -/
inductive Tick where
  | cpu
  | dot
  deriving DecidableEq, Repr

namespace Pace

/-- The tick whose divider counts first in a master cycle. -/
def first : Pace → Tick
  | .cpuCycle => .dot
  | _ => .cpu

/-- The tick whose divider counts second.  A call that ends at a tick ends at this one. -/
def second : Pace → Tick
  | .cpuCycle => .cpu
  | _ => .dot

/-- Every tick is one of the two of a master cycle. -/
theorem first_or_second (p : Pace) (t : Tick) : t = p.first ∨ t = p.second := by
  cases p <;> cases t <;> simp [first, second]

theorem first_ne_second (p : Pace) : p.first ≠ p.second := by cases p <;> decide

end Pace

namespace Tick

/-- Master cycles from one such tick to the next. -/
def divider : Tick → Region → Nat
  | cpu, region => region.cpuDivider
  | dot, region => region.dotDivider

theorem divider_pos (t : Tick) (region : Region) : 0 < t.divider region := by
  cases t
  · exact region.cpuDivider_pos
  · exact region.dotDivider_pos

section Deliver

variable {σ ε : Type} [Clocked σ ε]

/-- Hands a tick to a system. -/
def perform : Tick → σ → Except ε Unit × σ
  | cpu, s => Clocked.cpuCycle s
  | dot, s => Clocked.dot s

/-- Hands ticks to a system, up to the first that fails. -/
def deliver : List Tick → σ → Except ε Unit × σ
  | [], s => (.ok (), s)
  | t :: ts, s =>
    match t.perform s with
    | (.ok _, s) => deliver ts s
    | failed => failed

/-- The ticks `before` go well and the one after them fails. -/
def FailsAfter (before : List Tick) (t : Tick) (s : σ) (e : ε) (s' : σ) : Prop :=
  ∃ s₁, deliver before s = (.ok (), s₁) ∧ t.perform s₁ = (.error e, s')

/-- No ticks make the system fail. -/
def NeverFails (s : σ) : Prop := ∀ ts, (deliver ts s).1 = .ok ()

variable {ts us : List Tick} {t : Tick} {s s₁ s' : σ} {e : ε}

theorem deliver_singleton (t : Tick) (s : σ) : deliver [t] s = t.perform s := by
  rcases ht : t.perform s with ⟨e | ⟨⟩, s'⟩
  · rw [deliver, ht]
  · rw [deliver, ht]
    rfl

/-- Ticks that go well are followed by the rest. -/
theorem deliver_append (h : deliver ts s = (.ok (), s₁)) : deliver (ts ++ us) s = deliver us s₁ := by
  induction ts generalizing s with
  | nil =>
    cases h
    rfl
  | cons t ts ih =>
    rw [deliver] at h
    rw [List.cons_append, deliver]
    rcases ht : t.perform s with ⟨e | ⟨⟩, q⟩
    · rw [ht] at h
      cases h
    · rw [ht] at h
      exact ih h

/-- A failure among later ticks is one of all of them. -/
theorem FailsAfter.append (h : deliver ts s = (.ok (), s₁)) (hf : FailsAfter us t s₁ e s') :
    FailsAfter (ts ++ us) t s e s' := by
  obtain ⟨s₂, hus, ht⟩ := hf
  exact ⟨s₂, (deliver_append h).trans hus, ht⟩

/-- A sink that never fails does not fail after any ticks. -/
theorem NeverFails.not_failsAfter (h : NeverFails s) : ¬ FailsAfter ts t s e s' := by
  rintro ⟨s₁, hts, ht⟩
  have hok := h (ts ++ [t])
  rw [deliver_append hts, deliver_singleton, ht] at hok
  cases hok

/-- And it never fails after those it has taken. -/
theorem NeverFails.deliver (h : NeverFails s) (hts : deliver ts s = (.ok (), s')) : NeverFails s' := by
  intro us
  rw [← deliver_append hts]
  exact h (ts ++ us)

end Deliver

end Tick

/-- A system that notes the ticks it makes.  If it has a fuse, the tick fails that so many others come
    before, and only that one. -/
structure Recorder where
  fuse : Option Nat
  ticks : List Tick
  deriving DecidableEq, Repr

namespace Recorder

open Tick (deliver NeverFails)

/-- Makes a tick, or fails. -/
def tick (t : Tick) (r : Recorder) : Except Unit Unit × Recorder :=
  match r.fuse with
  | none => (.ok (), { r with ticks := r.ticks ++ [t] })
  | some 0 => (.error (), { r with fuse := none })
  | some (n + 1) => (.ok (), ⟨some n, r.ticks ++ [t]⟩)

instance : Clocked Recorder Unit := ⟨tick .cpu, tick .dot⟩

theorem perform_eq (t : Tick) (r : Recorder) : t.perform r = tick t r := by cases t <;> rfl

/-- A recorder without a limit takes down the ticks in order. -/
theorem deliver_eq (ts us : List Tick) : deliver ts (mk none us) = (.ok (), mk none (us ++ ts)) := by
  induction ts generalizing us with
  | nil => rw [List.append_nil]; rfl
  | cons t ts ih =>
    rw [deliver, perform_eq]
    show deliver ts (mk none (us ++ [t])) = _
    rw [ih, List.append_assoc]
    rfl

/-- Such a recorder never fails. -/
theorem neverFails (us : List Tick) : NeverFails (mk none us) := fun ts => by rw [deliver_eq]

end Recorder

namespace Clock

open Tick (deliver FailsAfter NeverFails)

/-- The clock of a region whose dividers have counted so many master cycles each. -/
def counted (region : Region) (n : Tick → Nat) : Clock :=
  ⟨region, n .cpu % region.cpuDivider, n .dot % region.dotDivider⟩

/-- The clock of a region after so many master cycles. -/
def after (region : Region) (m : Nat) : Clock := counted region fun _ => m

/-- A tick, if it is due in master cycle `k`. -/
def dueOf (region : Region) (k : Nat) (t : Tick) : List Tick :=
  if t.divider region ∣ k then [t] else []

/-- The ticks due in master cycle `k`, in the order of a pace. -/
def due (region : Region) (p : Pace) (k : Nat) : List Tick :=
  dueOf region k p.first ++ dueOf region k p.second

/-- The ticks of `n` master cycles after the first `m`: both periodic rows, merged. -/
def merged (region : Region) (p : Pace) (m n : Nat) : List Tick :=
  (List.range' (m + 1) n).flatMap (due region p)

variable {region : Region} {p : Pace} {m n k : Nat} {t : Tick}

/-! ## The rows of ticks

  What is due on a master cycle depends on its number alone.  The rows below list it for a stretch,
  with no clock in them. -/

/-- A tick is due on the multiples of its divider. -/
theorem mem_dueOf {u : Tick} : u ∈ dueOf region k t ↔ u = t ∧ t.divider region ∣ k := by
  unfold dueOf
  split
  · next h => simp [h]
  · next h => simp [h]

theorem mem_due : t ∈ due region p k ↔ t.divider region ∣ k := by
  rw [due, List.mem_append, mem_dueOf, mem_dueOf]
  constructor
  · rintro (⟨rfl, h⟩ | ⟨rfl, h⟩)
    · exact h
    · exact h
  · intro h
    rcases p.first_or_second t with rfl | rfl
    · exact .inl ⟨rfl, h⟩
    · exact .inr ⟨rfl, h⟩

/-- The ticks of a stretch are those with a multiple of their divider in it. -/
theorem mem_merged : t ∈ merged region p m n ↔ ∃ k, m < k ∧ k ≤ m + n ∧ t.divider region ∣ k := by
  simp only [merged, List.mem_flatMap, List.mem_range'_1, mem_due]
  constructor
  · rintro ⟨k, ⟨hm, hn⟩, hk⟩
    exact ⟨k, by omega, by omega, hk⟩
  · rintro ⟨k, hm, hn, hk⟩
    exact ⟨k, ⟨by omega, by omega⟩, hk⟩

/-- A stretch begins with what is due on its first master cycle. -/
theorem merged_succ (region : Region) (p : Pace) (m n : Nat) :
    merged region p m (n + 1) = due region p (m + 1) ++ merged region p (m + 1) n := rfl

/-- And it ends with what is due on its last. -/
theorem merged_last (region : Region) (p : Pace) (m n : Nat) :
    merged region p m (n + 1) = merged region p m n ++ due region p (m + n + 1) := by
  rw [merged, List.range'_concat, List.flatMap_append, List.flatMap_singleton, Nat.one_mul,
    show m + 1 + n = m + n + 1 by omega]
  rfl

/-- On one master cycle a tick is due once or not at all. -/
theorem count_dueOf_self (region : Region) (k : Nat) (t : Tick) :
    (dueOf region k t).count t = if t.divider region ∣ k then 1 else 0 := by
  unfold dueOf
  split
  · exact List.count_singleton_self
  · rfl

theorem count_dueOf_of_ne {u : Tick} (h : u ≠ t) : (dueOf region k t).count u = 0 :=
  List.count_eq_zero.mpr fun hu => h (mem_dueOf.mp hu).1

/-- So it is among all that is due on that cycle. -/
theorem count_due (region : Region) (p : Pace) (k : Nat) (t : Tick) :
    (due region p k).count t = if t.divider region ∣ k then 1 else 0 := by
  have hne := p.first_ne_second
  rw [due, List.count_append]
  rcases p.first_or_second t with rfl | rfl
  · rw [count_dueOf_self, count_dueOf_of_ne hne, Nat.add_zero]
  · rw [count_dueOf_self, count_dueOf_of_ne hne.symm, Nat.zero_add]

/-- Up to a master cycle there are as many ticks as multiples of their divider. -/
theorem count_merged (region : Region) (p : Pace) (m n : Nat) (t : Tick) :
    m / t.divider region + (merged region p m n).count t = (m + n) / t.divider region := by
  induction n with
  | zero => rfl
  | succ n ih =>
    rw [merged_last, List.count_append, count_due, ← Nat.add_assoc, ih, ← Nat.add_assoc, Nat.succ_div]

/-! ## One divider -/

/-- A count modulo a divider wraps when the divider divides the count. -/
theorem wraps_iff {d : Nat} (hd : 0 < d) (m : Nat) : m % d + 1 = d ↔ d ∣ m + 1 := by
  have hm := Nat.div_add_mod m d
  have hlt := Nat.mod_lt m hd
  constructor
  · intro h
    exact ⟨m / d + 1, by rw [Nat.mul_add, Nat.mul_one]; omega⟩
  · rintro ⟨q, hq⟩
    have hmod : (d * (m / d) + (m % d + 1)) % d = 0 := by
      rw [← Nat.add_assoc, hm, hq, Nat.mul_mod_right]
    rw [Nat.mul_add_mod] at hmod
    exact Nat.le_antisymm hlt (Nat.le_of_dvd (by omega) (Nat.dvd_of_mod_eq_zero hmod))

/-- A count that does not wrap goes one up. -/
theorem succ_mod_of_not_dvd {d : Nat} (hd : 0 < d) {m : Nat} (h : ¬ d ∣ m + 1) :
    (m + 1) % d = m % d + 1 := by
  have hlt := Nat.mod_lt m hd
  rw [← wraps_iff hd] at h
  calc (m + 1) % d = (d * (m / d) + (m % d + 1)) % d := by rw [← Nat.add_assoc, Nat.div_add_mod]
    _ = (m % d + 1) % d := Nat.mul_add_mod ..
    _ = m % d + 1 := Nat.mod_eq_of_lt (by omega)

/-- Counts one master cycle in the divider of a tick; true if it wraps. -/
def advance : Tick → Clock → Bool × Clock
  | .cpu => advanceCpu
  | .dot => advanceDot

/-- A counter that has counted so many master cycles wraps on the multiples of its divider. -/
theorem advance_counted (region : Region) (n : Tick → Nat) (t : Tick) :
    (counted region n).advance t =
      (decide (t.divider region ∣ n t + 1), counted region (Function.update n t (n t + 1))) := by
  have hpos := t.divider_pos region
  by_cases h : t.divider region ∣ n t + 1
  · have hwraps := (wraps_iff hpos (n t)).mpr h
    have hzero := (Nat.mod_eq_zero_of_dvd h).symm
    rw [decide_eq_true h]
    cases t
    · exact (if_pos hwraps).trans
        (congrArg (fun phase => (true, Clock.mk region phase (n .dot % region.dotDivider))) hzero)
    · exact (if_pos hwraps).trans
        (congrArg (fun phase => (true, Clock.mk region (n .cpu % region.cpuDivider) phase)) hzero)
  · have hwraps := mt (wraps_iff hpos (n t)).mp h
    have hnext := (succ_mod_of_not_dvd hpos h).symm
    rw [decide_eq_false h]
    cases t
    · exact (if_neg hwraps).trans
        (congrArg (fun phase => (false, Clock.mk region phase (n .dot % region.dotDivider))) hnext)
    · exact (if_neg hwraps).trans
        (congrArg (fun phase => (false, Clock.mk region (n .cpu % region.cpuDivider) phase)) hnext)

/-- After so many master cycles a clock's counter wraps where the tick is due. -/
theorem wraps_after (region : Region) (m : Nat) (t : Tick) :
    ((after region m).advance t).1 = decide (t.divider region ∣ m + 1) := by
  rw [after, advance_counted]

variable {σ ε : Type} [Clocked σ ε]

/-- The part of a master cycle that the divider of a tick has in it. -/
def turn : Tick → Clock → σ → Except ε Unit × Clock × σ
  | .cpu => cpuTurn
  | .dot => dotTurn

/-- A divider that wraps hands out its tick, and has counted whether the tick fails or not. -/
theorem turn_eq (t : Tick) (c : Clock) (s : σ) :
    turn t c s =
      if (c.advance t).1 then ((t.perform s).1, (c.advance t).2, (t.perform s).2)
      else (.ok (), (c.advance t).2, s) := by
  cases t
  · show cpuTurn c s = if c.advanceCpu.1 then (_, c.advanceCpu.2, _) else (_, c.advanceCpu.2, _)
    unfold cpuTurn
    rcases c.advanceCpu with ⟨_ | _, c'⟩
    · rfl
    · rfl
  · show dotTurn c s = if c.advanceDot.1 then (_, c.advanceDot.2, _) else (_, c.advanceDot.2, _)
    unfold dotTurn
    rcases c.advanceDot with ⟨_ | _, c'⟩
    · rfl
    · rfl

/-- A divider hands out its tick iff the tick is due, and has counted whether the tick fails or not. -/
theorem turn_counted (region : Region) (n : Tick → Nat) (t : Tick) (s : σ) :
    turn t (counted region n) s =
      ((deliver (dueOf region (n t + 1) t) s).1, counted region (Function.update n t (n t + 1)),
        (deliver (dueOf region (n t + 1) t) s).2) := by
  rw [turn_eq, advance_counted]
  unfold dueOf
  by_cases h : t.divider region ∣ n t + 1
  · rw [if_pos (decide_eq_true h), if_pos h, Tick.deliver_singleton]
  · rw [if_neg (by simpa using h), if_neg h]
    rfl

/-! ## One master cycle -/

/-- The clock that a tick leaves which fails in master cycle `m + 1`: the second divider has counted
    only if it is its own tick that failed. -/
def stopped (region : Region) (p : Pace) (m : Nat) (t : Tick) : Clock :=
  if t = p.second then after region (m + 1)
  else counted region (Function.update (fun _ => m) p.first (m + 1))

/-- A master cycle is the turn of its first tick and then that of its second. -/
theorem masterCycle_eq (p : Pace) (c : Clock) (s : σ) :
    masterCycle p c s =
      match turn p.first c s with
      | (.ok _, c, s) => turn p.second c s
      | failed => failed := by
  cases p <;> rfl

/-- Both dividers have counted one master cycle more. -/
theorem counted_both (region : Region) (p : Pace) (n : Tick → Nat) :
    counted region (Function.update (Function.update n p.first (n p.first + 1)) p.second
        (n p.second + 1)) = counted region fun t => n t + 1 := by
  congr 1
  funext t
  rcases p.first_or_second t with rfl | rfl
  · rw [Function.update_of_ne p.first_ne_second, Function.update_self]
  · rw [Function.update_self]

/-- A failure where one tick is due is that tick's. -/
theorem deliver_dueOf_error {s s' : σ} {e : ε} (h : deliver (dueOf region k t) s = (.error e, s')) :
    dueOf region k t = [t] ∧ t.perform s = (.error e, s') := by
  unfold dueOf at h ⊢
  split at h
  · next hd =>
    rw [Tick.deliver_singleton] at h
    exact ⟨if_pos hd, h⟩
  · cases h

/-- In a master cycle all that is due is handed out; or a tick that is due fails. -/
theorem masterCycle_cases (region : Region) (p : Pace) (m : Nat) (s : σ) :
    (∃ s', deliver (due region p (m + 1)) s = (.ok (), s') ∧
      masterCycle p (after region m) s = (.ok (), after region (m + 1), s')) ∨
    (∃ before t rest e s', due region p (m + 1) = before ++ t :: rest ∧ FailsAfter before t s e s' ∧
      masterCycle p (after region m) s = (.error e, stopped region p m t, s')) := by
  have hne := p.first_ne_second
  have hfirst := turn_counted region (fun _ => m) p.first s
  rw [masterCycle_eq]
  rcases hd : deliver (dueOf region (m + 1) p.first) s with ⟨e | ⟨⟩, s₁⟩
  · -- the first divider's tick fails, and the second divider has no part in the master cycle
    obtain ⟨hdue, hfail⟩ := deliver_dueOf_error hd
    refine .inr ⟨[], p.first, dueOf region (m + 1) p.second, e, s₁, ?_, ⟨s, rfl, hfail⟩, ?_⟩
    · rw [due, hdue]
      rfl
    · rw [after, hfirst, hd, stopped, if_neg hne]
  · have hsecond := turn_counted region (Function.update (fun _ => m) p.first (m + 1)) p.second s₁
    rw [Function.update_of_ne hne.symm, counted_both region p fun _ => m,
      show (counted region fun _ => m + 1) = after region (m + 1) from rfl] at hsecond
    rw [after, hfirst, hd]
    dsimp only
    rw [hsecond]
    rcases hd' : deliver (dueOf region (m + 1) p.second) s₁ with ⟨e | ⟨⟩, s'⟩
    · obtain ⟨hdue, hfail⟩ := deliver_dueOf_error hd'
      refine .inr ⟨dueOf region (m + 1) p.first, p.second, [], e, s', ?_, ⟨s₁, hd, hfail⟩, ?_⟩
      · rw [due, hdue]
      · rw [stopped, if_pos rfl]
    · refine .inl ⟨s', ?_, rfl⟩
      rw [due, Tick.deliver_append hd, hd']

/-! ## A stretch of master cycles -/

/-- In a stretch all that is due is handed out; or a tick that is due fails. -/
theorem runCycles_cases (region : Region) (p : Pace) (n m : Nat) (s : σ) :
    (∃ s', deliver (merged region p m n) s = (.ok (), s') ∧
      runCycles p n (after region m) s = (.ok (), after region (m + n), s')) ∨
    (∃ k before t rest e s', k < n ∧ due region p (m + k + 1) = before ++ t :: rest ∧
      FailsAfter (merged region p m k ++ before) t s e s' ∧
      runCycles p n (after region m) s = (.error e, stopped region p (m + k) t, s')) := by
  induction n generalizing m s with
  | zero => exact .inl ⟨s, rfl, rfl⟩
  | succ n ih =>
    rw [runCycles]
    rcases masterCycle_cases region p m s with
      ⟨s₁, hd, hm⟩ | ⟨before, t, rest, e, s', hdue, hf, hm⟩
    · rw [hm]
      dsimp only
      rcases ih (m + 1) s₁ with ⟨s', hd', hr⟩ | ⟨k, before, t, rest, e, s', hk, hdue, hf, hr⟩
      · refine .inl ⟨s', ?_, ?_⟩
        · rw [merged_succ, Tick.deliver_append hd, hd']
        · rw [hr, show m + 1 + n = m + (n + 1) by omega]
      · have hshift : m + 1 + k = m + (k + 1) := by omega
        rw [hshift] at hdue hr
        refine .inr ⟨k + 1, before, t, rest, e, s', by omega, hdue, ?_, hr⟩
        rw [merged_succ, List.append_assoc]
        exact hf.append hd
    · rw [hm]
      exact .inr ⟨0, before, t, rest, e, s', by omega, hdue, hf, rfl⟩

/-! ## One call -/

/-- The loop of a pace that ends at a tick: so many master cycles, up to the one in which the divider of
    the tick wraps. -/
inductive Loops (p : Pace) : Nat → Clock → σ → Clock → σ → Prop
  | last {c c' : Clock} {s s' : σ} :
      (c.advance p.second).1 = true → masterCycle p c s = (.ok (), c', s') → Loops p 1 c s c' s'
  | next {n : Nat} {c c₁ c' : Clock} {s s₁ s' : σ} :
      (c.advance p.second).1 = false → masterCycle p c s = (.ok (), c₁, s₁) →
      Loops p n c₁ s₁ c' s' → Loops p (n + 1) c s c' s'

/-- A call from master cycle `m` on takes `n` master cycles and hands out the ticks `ts`.  At a pace that
    ends at a tick it is the loop up to the tick, which comes once and last. -/
structure Call (region : Region) (p : Pace) (m n : Nat) (ts : List Tick) (s s' : σ) : Prop where
  returns : run p (after region m) s = (.ok (), after region (m + n), s')
  delivered : deliver ts s = (.ok (), s')
  merged : ts = merged region p m n
  frame : p = .frame → n = region.frameCycles
  loop : p ≠ .frame → Loops p n (after region m) s (after region (m + n)) s'
  last : p ≠ .frame → ∃ before, ts = before ++ [p.second] ∧ p.second ∉ before

variable {s s' : σ}

/-- With a sink that never fails, a master cycle delivers what is due and leaves the clock one master
    cycle on. -/
theorem exists_masterCycle (hs : NeverFails s) (region : Region) (p : Pace) (m : Nat) :
    ∃ s', deliver (due region p (m + 1)) s = (.ok (), s') ∧
      masterCycle p (after region m) s = (.ok (), after region (m + 1), s') := by
  rcases masterCycle_cases region p m s with h | ⟨before, t, rest, e, s', -, hf, -⟩
  · exact h
  · exact absurd hf hs.not_failsAfter

/-- The master cycles left until a divider wraps are those of the loop up to its tick. -/
theorem loops_of_mod (hs : NeverFails s)
    (hn : m % p.second.divider region + (n + 1) = p.second.divider region)
    (hd : deliver (Clock.merged region p m (n + 1)) s = (.ok (), s')) :
    Loops p (n + 1) (after region m) s (after region (m + (n + 1))) s' := by
  have hpos := p.second.divider_pos region
  induction n generalizing m s with
  | zero =>
    obtain ⟨s₁, hfirst, hm⟩ := exists_masterCycle hs region p m
    rw [merged_succ, Tick.deliver_append hfirst] at hd
    cases hd
    refine .last ?_ hm
    rw [wraps_after]
    exact decide_eq_true ((wraps_iff hpos m).mp hn)
  | succ n ih =>
    obtain ⟨s₁, hfirst, hm⟩ := exists_masterCycle hs region p m
    rw [merged_succ, Tick.deliver_append hfirst] at hd
    have hnot : ¬ p.second.divider region ∣ m + 1 := by
      rw [← wraps_iff hpos]
      omega
    have hleft : (m + 1) % p.second.divider region + (n + 1) = p.second.divider region := by
      rw [succ_mod_of_not_dvd hpos hnot]
      omega
    rw [show m + (n + 1 + 1) = m + 1 + (n + 1) by omega]
    refine .next ?_ hm (ih (hs.deliver hfirst) hleft hd)
    rw [wraps_after]
    exact decide_eq_false hnot

/-- The tick whose divider wraps at the end of a stretch, and not before, comes once and last. -/
theorem merged_ends (hn : m % p.second.divider region + (n + 1) = p.second.divider region) :
    ∃ before, Clock.merged region p m (n + 1) = before ++ [p.second] ∧ p.second ∉ before := by
  have hm := Nat.div_add_mod m (p.second.divider region)
  have hend : p.second.divider region ∣ m + n + 1 :=
    ⟨m / p.second.divider region + 1, by rw [Nat.mul_add, Nat.mul_one]; omega⟩
  refine ⟨Clock.merged region p m n ++ dueOf region (m + n + 1) p.first, ?_, ?_⟩
  · have hdue : dueOf region (m + n + 1) p.second = [p.second] := if_pos hend
    rw [merged_last, due, hdue, List.append_assoc]
  · rw [List.mem_append, not_or]
    constructor
    · intro h
      obtain ⟨k, hmk, hkn, hk⟩ := mem_merged.mp h
      have hgap := Nat.le_of_dvd (by omega) (Nat.dvd_sub hend hk)
      omega
    · intro h
      exact p.first_ne_second (mem_dueOf.mp h).1.symm

/-- A call comes to its end and delivers the ticks of the stretch it covers. -/
theorem exists_call (hs : NeverFails s) (region : Region) (p : Pace) (m : Nat) :
    ∃ n ts s', Call region p m n ts s s' := by
  obtain ⟨s', hd, hr⟩ : ∃ s', deliver (Clock.merged region p m ((after region m).cyclesFor p)) s =
        (.ok (), s') ∧ run p (after region m) s =
        (.ok (), after region (m + (after region m).cyclesFor p), s') := by
    rcases runCycles_cases region p ((after region m).cyclesFor p) m s with
      h | ⟨k, before, t, rest, e, s', -, -, hf, -⟩
    · exact h
    · exact absurd hf hs.not_failsAfter
  have hleft : p ≠ .frame → ∃ n, (after region m).cyclesFor p = n + 1 ∧
      m % p.second.divider region + (n + 1) = p.second.divider region := by
    intro hp
    have hlt := Nat.mod_lt m (p.second.divider_pos region)
    refine ⟨p.second.divider region - m % p.second.divider region - 1, ?_, by omega⟩
    cases p with
    | frame => exact absurd rfl hp
    | cpuCycle =>
      show region.cpuDivider - m % region.cpuDivider = region.cpuDivider - m % region.cpuDivider - 1 + 1
      have : m % region.cpuDivider < region.cpuDivider := hlt
      omega
    | dot =>
      show region.dotDivider - m % region.dotDivider = region.dotDivider - m % region.dotDivider - 1 + 1
      have : m % region.dotDivider < region.dotDivider := hlt
      omega
  refine ⟨_, _, s', hr, hd, rfl, ?_, ?_, ?_⟩
  · rintro rfl
    rfl
  · intro hp
    obtain ⟨n, hn, hwrap⟩ := hleft hp
    rw [hn] at hd ⊢
    exact loops_of_mod hs hwrap hd
  · intro hp
    obtain ⟨n, hn, hwrap⟩ := hleft hp
    rw [hn]
    exact merged_ends hwrap

/-! ## Calls

  A call goes on up to its own kind of tick, so how many master cycles it takes depends on where the
  clock stands.  The course of some calls is the stretch they cover together. -/

/-- Calls one after the other, up to the first that fails. -/
def runAll : List Pace → Clock → σ → Except ε Unit × Clock × σ
  | [], c, s => (.ok (), c, s)
  | p :: calls, c, s =>
    match run p c s with
    | (.ok _, c, s) => runAll calls c s
    | failed => failed

/-- Calls from master cycle `m` on, the ticks they hand out, and the master cycle they come to: each call
    adds the master cycles that it takes. -/
inductive Course (region : Region) : Nat → σ → List Pace → List Tick → Nat → σ → Prop
  | nil (m : Nat) (s : σ) : Course region m s [] [] m s
  | cons {p : Pace} {m n m' : Nat} {s s₁ s' : σ} {ts us : List Tick} {calls : List Pace} :
      Call region p m n ts s s₁ → Course region (m + n) s₁ calls us m' s' →
      Course region m s (p :: calls) (ts ++ us) m' s'

variable {calls : List Pace} {ts : List Tick} {m' : Nat}

/-- The calls of a course leave the clock where their master cycles say. -/
theorem Course.runAll_eq (h : Course region m s calls ts m' s') :
    runAll calls (after region m) s = (.ok (), after region m', s') := by
  induction h with
  | nil => rfl
  | cons hcall _ ih =>
    rw [runAll, hcall.returns]
    exact ih

/-- And they deliver the ticks of the whole stretch. -/
theorem Course.delivered (h : Course region m s calls ts m' s') : deliver ts s = (.ok (), s') := by
  induction h with
  | nil => rfl
  | cons hcall _ ih =>
    rw [Tick.deliver_append hcall.delivered]
    exact ih

/-- Up to a master cycle as many ticks have been handed out as there are multiples of their divider. -/
theorem Course.count (h : Course region m s calls ts m' s') (t : Tick) :
    m / t.divider region + ts.count t = m' / t.divider region := by
  induction h with
  | nil => rfl
  | cons hcall _ ih =>
    rw [List.count_append, ← ih, ← count_merged region _ _ _ t, hcall.merged, Nat.add_assoc]

/-- Any calls make a course. -/
theorem exists_course (hs : NeverFails s) (region : Region) (calls : List Pace) (m : Nat) :
    ∃ ts m' s', Course region m s calls ts m' s' := by
  induction calls generalizing m s with
  | nil => exact ⟨[], m, s, .nil m s⟩
  | cons p calls ih =>
    obtain ⟨n, ts, s₁, hcall⟩ := exists_call hs region p m
    obtain ⟨us, m', s', hrest⟩ := ih (hs.deliver hcall.delivered) (m + n)
    exact ⟨ts ++ us, m', s', .cons hcall hrest⟩

/-- A new clock has counted nothing. -/
theorem new_eq_after (region : Region) : new region = after region 0 := by
  simp [new, after, counted]

/-- Calls in any mix, of a system that never fails, all come back, and there is one count of master
    cycles, the sum of what the calls take: both dividers stand at it, and up to it the ticks of both
    rows have been handed out, call for call in the order of the pace. -/
theorem runAll_lockstep (region : Region) (calls : List Pace) {s : σ} (hs : NeverFails s) :
    ∃ m ts s', Course region 0 s calls ts m s' ∧
      runAll calls (new region) s =
        (.ok (), ⟨region, m % region.cpuDivider, m % region.dotDivider⟩, s') ∧
      deliver ts s = (.ok (), s') ∧
      ts.count .cpu = m / region.cpuDivider ∧ ts.count .dot = m / region.dotDivider := by
  obtain ⟨ts, m, s', h⟩ := exists_course hs region calls 0
  have hcpu := h.count .cpu
  have hdot := h.count .dot
  rw [Nat.zero_div, Nat.zero_add] at hcpu hdot
  refine ⟨m, ts, s', h, ?_, h.delivered, hcpu, hdot⟩
  rw [new_eq_after]
  exact h.runAll_eq

/-- The recorder notes what three calls of different paces hand out. -/
theorem runAll_lockstep_recorder :
    NeverFails (Recorder.mk none []) ∧
      ∃ m ts s', Course .ntsc 0 (Recorder.mk none []) [.dot, .frame, .cpuCycle] ts m s' ∧
        runAll [.dot, .frame, .cpuCycle] (new .ntsc) (Recorder.mk none []) =
          (.ok (), ⟨.ntsc, m % 12, m % 4⟩, s') ∧
        deliver ts (Recorder.mk none []) = (.ok (), s') ∧
        ts.count .cpu = m / 12 ∧ ts.count .dot = m / 4 :=
  ⟨Recorder.neverFails [], runAll_lockstep .ntsc [.dot, .frame, .cpuCycle] (Recorder.neverFails [])⟩

end Clock

end Famicom
