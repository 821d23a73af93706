/-
  What the delta modulation channel plays: the stream of its samples.

  A run is told by its moves, from power-on or a reset on; what is seen of the channel is written down
  move by move (`track`).

  1. **Bytes** (`bytes_step`): a byte is taken when it was asked for and is still wanted, waits in the
     buffer, and is loaded when the eighth bit of the one before is through.  So what was taken is what
     was loaded and what still waits, and nothing is lost, repeated or moved.
  2. **Samples** (`Ledger`): written down without a look at the channel's own count and address.  A sample
     starts with the address and the length that are in effect, each byte is one more of it, the last one
     ends it, and it is dropped where the channel is disabled.  The channel's count and address are those
     of the ledger (`Follows`), so the addresses it asks for are those of the samples.
  3. **Bits** (`Playing`): after a byte was loaded the channel stands at its first bit, and every expiry
     up to the eighth moves it on by one.

  Main statement: in a unit whose requests are answered at once the channel is what its moves make of it,
  and all three streams are as they should be (`Begun.sampleStream`).
-/
import Famicom.Proofs.Sound.DmcFetch
import Famicom.Proofs.Sound.Wiring
import Mathlib.Data.List.Induction

namespace Famicom.Dmc

/-! ## What is seen of a run -/

/-- What is noted of a run of the channel, move by move. -/
def track {β : Type} (note : β → Dmc → Move → β) (b : β) (d : Dmc) : List Move → β
  | [] => b
  | m :: moves => track note (note b d m) (d.step m) moves

/-- What is noted along moves is noted up to the last and then for the last. -/
theorem track_concat {β : Type} (note : β → Dmc → Move → β) (b : β) (d : Dmc) (moves : List Move)
    (m : Move) :
    track note b d (moves ++ [m]) = note (track note b d moves) (d.after moves) m := by
  induction moves generalizing b d with
  | nil => rfl
  | cons m' moves ih => exact ih (note b d m') (d.step m')

/-- The byte that is taken in a move, with the address that was asked for: one that is handed in while
    bytes of the sample are left. -/
def takes (d : Dmc) : Move → List (UInt16 × UInt8)
  | .serve value =>
    match d.takeRequest.1 with
    | some address => if 0 < d.bytesLeft then [(address, value)] else []
    | none => []
  | _ => []

/-- The byte that a move has loaded into the shift register: there was one bit left and the channel is
    not silent now. -/
def loads (d : Dmc) : Move → List UInt8
  | .expire => if d.bitsLeft = 1 ∧ d.expired.silent = false then [d.expired.shift] else []
  | _ => []

/-- The bytes taken since power-on, with the addresses that were asked for. -/
def taken (moves : List Move) : List (UInt16 × UInt8) :=
  track (fun bytes d m => bytes ++ d.takes m) [] powerOn moves

/-- The bytes loaded since power-on. -/
def loaded (moves : List Move) : List UInt8 :=
  track (fun bytes d m => bytes ++ d.loads m) [] powerOn moves

/-- A sample that was started: where it begins, how many bytes it has, how many of them were taken, and
    whether it was dropped. -/
structure Sample where
  address : UInt16
  length : Nat
  count : Nat := 0
  dropped : Bool := false
  deriving DecidableEq, Repr

/-- The address of a byte of a sample: they go on in the upper half of memory, round and round. -/
def Sample.addressAt (s : Sample) (k : Nat) : UInt16 :=
  .ofNat (0x8000 + (s.address.toNat - 0x8000 + k) % 0x8000)

/-- The addresses of the bytes of a sample that were taken. -/
def Sample.addresses (s : Sample) : List UInt16 := (List.range s.count).map s.addressAt

/-- The samples of a run: those that are over, the one that is played, and whether the interrupt is
    raised. -/
structure Ledger where
  past : List Sample := []
  current : Option Sample := none
  irq : Bool := false
  deriving DecidableEq, Repr

namespace Ledger

/-- The sample that the registers of the channel describe. -/
def chosen (d : Dmc) : Sample := ⟨d.sampleAddress, d.sampleLength, 0, false⟩

/-- A byte of the sample that is played was taken.  With the last one it is over: if the channel is to
    loop the next one starts, and if not the interrupt is raised where it is enabled. -/
def take (l : Ledger) (d : Dmc) : Ledger :=
  match l.current with
  | none => l
  | some s =>
    let s := { s with count := s.count + 1 }
    if s.count < s.length then { l with current := some s }
    else if d.loops then { l with past := l.past ++ [s], current := some (chosen d) }
    else { l with past := l.past ++ [s], current := none, irq := l.irq || d.irqEnabled }

/-- Enabling the channel starts a sample if none is played, and disabling it drops the one that is. -/
def enable (l : Ledger) (d : Dmc) (on : Bool) : Ledger :=
  match on, l.current with
  | true, none => { l with current := some (chosen d), irq := false }
  | true, some _ => { l with irq := false }
  | false, none => { l with irq := false }
  | false, some s =>
    { past := l.past ++ [{ s with dropped := true }], current := none, irq := false }

/-- What is written down in a move. -/
def note (l : Ledger) (d : Dmc) : Move → Ledger
  | .serve value => if d.takes (.serve value) = [] then l else l.take d
  | .enable on => l.enable d on
  | .control data => { l with irq := l.irq && (data &&& 0x80 != 0) }
  | _ => l

/-- All samples, in the order in which they were started. -/
def samples (l : Ledger) : List Sample := l.past ++ l.current.toList

end Ledger

/-- The samples since power-on. -/
def ledger (moves : List Move) : Ledger := track Ledger.note {} powerOn moves

/-- The level two up or down, if it stays in range. -/
def moved (level : Nat) (up : Bool) : Int :=
  let next : Int := if up then level + 2 else level - 2
  if 0 ≤ next ∧ next ≤ 127 then next else level

variable {d : Dmc} {m : Move} {moves : List Move} {l : Ledger}

/-! ## Parts of a move -/

theorem playBit_eq (d : Dmc) :
    d.playBit = { d with level := d.playBit.level, shift := d.playBit.shift } := by
  unfold playBit
  split
  · rfl
  · rfl

theorem askForByte_eq (d : Dmc) : d.askForByte = { d with requested := d.askForByte.requested } := by
  unfold askForByte
  split
  · rfl
  · rfl

theorem tickStartDelay_eq (d : Dmc) : d.tickStartDelay =
    { d with requested := d.tickStartDelay.requested, startDelay := d.tickStartDelay.startDelay } := by
  unfold tickStartDelay
  split
  · rfl
  · rw [askForByte_eq]
  · rfl

/-- Switching the channel on or off touches the address, the count of bytes and the start delay only.
    -/
theorem setEnabled_eq (d : Dmc) (on : Bool) : d.setEnabled on =
    { d with address := (d.setEnabled on).address, bytesLeft := (d.setEnabled on).bytesLeft
             startDelay := (d.setEnabled on).startDelay } := by
  unfold setEnabled
  split
  · rfl
  · split
    · rfl
    · rfl

/-- Before the last bit is through. -/
theorem expired_of_ne (h : d.bitsLeft ≠ 1) :
    d.expired = { d.playBit with bitsLeft := d.bitsLeft - 1 } := by
  have hbits : d.playBit.bitsLeft = d.bitsLeft := by rw [playBit_eq]
  unfold expired
  rw [hbits, if_neg h]

/-- The last bit is through and no byte waits. -/
theorem expired_of_none (h : d.bitsLeft = 1) (hb : d.buffer = none) :
    d.expired = { d.playBit with bitsLeft := 8, silent := true } := by
  have hbits : d.playBit.bitsLeft = 1 := by rw [playBit_eq]; exact h
  have hbuffer : d.playBit.buffer = none := by rw [playBit_eq]; exact hb
  unfold expired nextByte
  rw [if_pos hbits]
  dsimp only
  rw [hbuffer]

/-- The last bit is through and a byte waits, which may leave room for the next one. -/
theorem expired_of_some (h : d.bitsLeft = 1) {byte : UInt8} (hb : d.buffer = some byte) :
    ∃ requested, d.expired = { d.playBit with
      bitsLeft := 8, silent := false, shift := byte, buffer := none, requested } := by
  have hbits : d.playBit.bitsLeft = 1 := by rw [playBit_eq]; exact h
  have hbuffer : d.playBit.buffer = some byte := by rw [playBit_eq]; exact hb
  unfold expired nextByte
  rw [if_pos hbits]
  dsimp only
  rw [hbuffer]
  exact ⟨_, askForByte_eq _⟩

/-- An expiry touches what is played and what is about to be played. -/
theorem expired_eq (d : Dmc) : d.expired = { d.playBit with
    bitsLeft := d.expired.bitsLeft, silent := d.expired.silent, shift := d.expired.shift
    buffer := d.expired.buffer, requested := d.expired.requested } := by
  by_cases h : d.bitsLeft = 1
  · cases hb : d.buffer with
    | none => rw [expired_of_none h hb]
    | some byte =>
      obtain ⟨requested, he⟩ := expired_of_some h hb
      rw [he]
  · rw [expired_of_ne h]

/-- The sample that is fetched has no part in an expiry. -/
theorem expired_sample (d : Dmc) : d.expired.irq = d.irq ∧ d.expired.bytesLeft = d.bytesLeft ∧
    d.expired.address = d.address := by
  rw [expired_eq, playBit_eq]
  exact ⟨rfl, rfl, rfl⟩

/-- A looping sample begins again. -/
theorem endSample_of_loops (h : d.loops = true) : d.endSample = d.startSample := if_pos h

/-- Another one raises the interrupt if that is switched on. -/
theorem endSample_of_not (h : d.loops = false) : d.endSample = { d with irq := d.irq || d.irqEnabled } := by
  unfold endSample
  rw [if_neg (Bool.eq_false_iff.mp h)]
  split
  · next hon =>
    have hirq : (d.irq || d.irqEnabled) = true := by rw [hon, Bool.or_true]
    rw [hirq]
  · next hoff =>
    have hirq : (d.irq || d.irqEnabled) = d.irq := by rw [Bool.eq_false_iff.mpr hoff, Bool.or_false]
    rw [hirq]

theorem endSample_eq (d : Dmc) : d.endSample = { d with
    address := d.endSample.address, bytesLeft := d.endSample.bytesLeft, irq := d.endSample.irq } := by
  unfold endSample
  split
  · rfl
  · split
    · rfl
    · rfl

/-! ## Bytes

  A byte comes into the buffer when it is served and leaves it when it is loaded, so of the bytes
  served all but the one that waits have been loaded, in order. -/

/-- Before its eighth expiry a byte stays in the shift register. -/
theorem loads_of_ne (h : d.bitsLeft ≠ 1) : d.loads .expire = [] := if_neg fun hl => h hl.1

/-- With no byte waiting nothing is loaded. -/
theorem loads_of_none (h : d.bitsLeft = 1) (hb : d.buffer = none) : d.loads .expire = [] := by
  refine if_neg fun hl => ?_
  rw [expired_of_none h hb] at hl
  cases hl.2

/-- With a byte waiting, the eighth expiry loads it. -/
theorem loads_of_some (h : d.bitsLeft = 1) {byte : UInt8} (hb : d.buffer = some byte) :
    d.loads .expire = [byte] := by
  obtain ⟨requested, he⟩ := expired_of_some h hb
  unfold loads
  rw [he, if_pos ⟨h, rfl⟩]

/-- A byte is taken where one was asked for and bytes are left. -/
theorem takes_serve (d : Dmc) (value : UInt8) : d.takes (.serve value) =
    if d.requested = true ∧ 0 < d.bytesLeft then [(d.address, value)] else [] := by
  unfold takes
  cases hreq : d.requested with
  | false =>
    have htake : d.takeRequest.1 = none := by
      unfold takeRequest
      rw [hreq]
      rfl
    rw [htake, if_neg fun h => Bool.false_ne_true h.1]
  | true =>
    have htake : d.takeRequest.1 = some d.address := by
      unfold takeRequest
      rw [hreq]
      rfl
    rw [htake]
    exact ite_congr (propext (iff_and_self.mpr fun _ => rfl)) (fun _ => rfl) fun _ => rfl

/-- The outcomes of a byte that is handed in: it was not asked for, or comes too late, or is taken. -/
theorem serve_cases (d : Dmc) (value : UInt8) :
    (d.takes (.serve value) = [] ∧ ∃ requested, d.serve value = { d with requested }) ∨
      (d.requested = true ∧ 0 < d.bytesLeft ∧ d.takes (.serve value) = [(d.address, value)] ∧
        d.serve value = if d.bytesLeft = 1 then (d.taking value).endSample else d.taking value) := by
  rw [takes_serve, serve_eq]
  cases hreq : d.requested with
  | false =>
    left
    exact ⟨if_neg fun h => Bool.false_ne_true h.1, d.requested, rfl⟩
  | true =>
    rw [if_neg (show ¬ true = false by decide)]
    by_cases hleft : d.bytesLeft = 0
    · left
      rw [if_neg fun h => Nat.ne_of_gt h.2 hleft, if_pos hleft]
      exact ⟨rfl, false, rfl⟩
    · right
      have hpos := Nat.pos_of_ne_zero hleft
      rw [if_pos ⟨rfl, hpos⟩, if_neg hleft]
      exact ⟨rfl, hpos, rfl, rfl⟩

/-- What waits and what is taken is what is loaded and what waits then. -/
theorem Fetching.bytes_step (h : d.Fetching) (m : Move) :
    d.buffer.toList ++ (d.takes m).map Prod.snd = d.loads m ++ (d.step m).buffer.toList := by
  cases m with
  | expire =>
    show d.buffer.toList ++ [] = d.loads .expire ++ d.expired.buffer.toList
    rw [List.append_nil]
    by_cases hbits : d.bitsLeft = 1
    · cases hb : d.buffer with
      | none =>
        rw [loads_of_none hbits hb, expired_of_none hbits hb, playBit_eq]
        show [] = d.buffer.toList
        rw [hb]
        rfl
      | some byte =>
        obtain ⟨requested, he⟩ := expired_of_some hbits hb
        rw [loads_of_some hbits hb, he]
        rfl
    · rw [loads_of_ne hbits, expired_of_ne hbits, playBit_eq]
      rfl
  | control data => exact List.append_nil _
  | level data => exact List.append_nil _
  | address data => exact List.append_nil _
  | length data => exact List.append_nil _
  | enable on =>
    show d.buffer.toList ++ [] = (Dmc.setEnabled { d with irq := false } on).buffer.toList
    rw [List.append_nil, setEnabled_eq]
  | wait =>
    show d.buffer.toList ++ [] = d.tickStartDelay.buffer.toList
    rw [List.append_nil, tickStartDelay_eq]
  | serve value =>
    show _ = (d.serve value).buffer.toList
    obtain ⟨htakes, requested, hserve⟩ | ⟨hreq, -, htakes, hserve⟩ := d.serve_cases value
    · rw [htakes, hserve]
      exact List.append_nil _
    · rw [htakes, hserve, h.room hreq]
      split
      · rw [endSample_eq]
        rfl
      · rfl

/-- What was taken is what was loaded, in order, and at most one byte that still waits. -/
theorem taken_eq (moves : List Move) :
    (taken moves).map Prod.snd = loaded moves ++ (powerOn.after moves).buffer.toList := by
  induction moves using List.reverseRecOn with
  | nil => rfl
  | append_singleton moves m ih =>
    have hstep := (fetching_powerOn.after moves).bytes_step m
    unfold taken loaded at ih ⊢
    rw [track_concat, track_concat, List.map_append, ih, List.append_assoc, hstep, after_concat,
      List.append_assoc]

/-! ## Samples

  The ledger keeps what has been read so far, sample by sample.  It looks at the channel only where the
  channel is switched on, and follows it from there by itself. -/

namespace Sample

variable {s : Sample} {k : Nat}

/-- The first byte of a sample is read at the start address. -/
theorem addressAt_zero (h : 0x8000 ≤ s.address) : s.addressAt 0 = s.address := by
  have hn : 0x8000 ≤ s.address.toNat := h
  have hlt := s.address.toNat_lt
  unfold addressAt
  rw [Nat.add_zero, Nat.mod_eq_of_lt (by omega), Nat.add_sub_cancel' hn, UInt16.ofNat_toNat]

/-- After the last address comes the beginning of the upper half. -/
theorem nextAddress_addressAt (s : Sample) (k : Nat) : nextAddress (s.addressAt k) = s.addressAt (k + 1) := by
  have hlt := Nat.mod_lt (s.address.toNat - 0x8000 + k) (show 0 < 0x8000 by decide)
  unfold nextAddress addressAt
  rw [← Nat.add_assoc]
  generalize s.address.toNat - 0x8000 + k = n at hlt ⊢
  by_cases hlast : n % 0x8000 = 0x7FFF
  · rw [hlast, show (n + 1) % 0x8000 = 0 by omega]
    rfl
  · have hnext : UInt16.ofNat (0x8000 + n % 0x8000) + 1 = UInt16.ofNat (0x8000 + (n + 1) % 0x8000) := by
      rw [show 0x8000 + (n + 1) % 0x8000 = 0x8000 + n % 0x8000 + 1 by omega]
      exact (UInt16.ofNat_add _ 1).symm
    rw [hnext, if_neg]
    rw [← UInt16.toNat_inj, UInt16.toNat_ofNat']
    show ¬ (0x8000 + (n + 1) % 0x8000) % 0x10000 = 0
    omega

/-- One more byte of a sample is read behind the others. -/
theorem addresses_succ (s : Sample) :
    addresses { s with count := s.count + 1 } = s.addresses ++ [s.addressAt s.count] := by
  unfold addresses
  rw [List.range_succ, List.map_append]
  rfl

end Sample

/-- The channel follows the ledger. -/
structure Follows (l : Ledger) (d : Dmc) : Prop where
  /-- A sample that is over has all its bytes, unless it was dropped before that. -/
  past : ∀ s ∈ l.past, if s.dropped then s.count < s.length else s.count = s.length
  /-- Where no sample is played no bytes are left. -/
  idle : l.current = none → d.bytesLeft = 0
  /-- The bytes that are left are those of the sample that is played, from the next address on. -/
  current : ∀ s, l.current = some s → s.dropped = false ∧ s.count < s.length ∧
    d.bytesLeft = s.length - s.count ∧ d.address = s.addressAt s.count
  irq : d.irq = l.irq

/-- At power-on nothing has been read. -/
theorem follows_powerOn : Follows {} powerOn := by
  refine ⟨?_, fun _ => rfl, ?_, rfl⟩
  · intro s hs
    cases hs
  · intro s hs
    cases hs

/-- A move that has nothing to do with samples. -/
theorem Follows.congr (h : Follows l d) {e : Dmc}
    (he : e.irq = d.irq ∧ e.bytesLeft = d.bytesLeft ∧ e.address = d.address) : Follows l e := by
  obtain ⟨hirq, hleft, haddress⟩ := he
  refine ⟨h.past, ?_, ?_, hirq.trans h.irq⟩
  · rw [hleft]
    exact h.idle
  · rw [hleft, haddress]
    exact h.current

/-- The sample that the registers describe has just been started. -/
theorem current_chosen (hd : d.Fetching) : ∀ s, some (Ledger.chosen d) = some s → s.dropped = false ∧
    s.count < s.length ∧ d.sampleLength = s.length - s.count ∧ d.sampleAddress = s.addressAt s.count := by
  rintro _ ⟨⟩
  refine ⟨rfl, hd.sampleLength_pos, rfl, ?_⟩
  exact (Sample.addressAt_zero (s := Ledger.chosen d) hd.sampleUpper).symm

/-- Switching the channel on begins a sample where none is left over. -/
theorem Follows.enable (h : Follows l d) (hd : d.Fetching) (on : Bool) :
    Follows (l.enable d on) ({ d with irq := false }.setEnabled on) := by
  unfold Ledger.enable
  cases on with
  | false =>
    cases hc : l.current with
    | none =>
      refine ⟨h.past, fun _ => rfl, ?_, rfl⟩
      intro s hs
      cases hs
    | some s =>
      obtain ⟨-, hlt, -⟩ := h.current s hc
      refine ⟨?_, fun _ => rfl, ?_, rfl⟩
      · intro t ht
        rcases List.mem_append.mp ht with ht | ht
        · exact h.past t ht
        · rw [List.mem_singleton.mp ht]
          exact hlt
      · intro t ht
        cases ht
  | true =>
    unfold Dmc.setEnabled
    cases hc : l.current with
    | none =>
      have hleft := h.idle hc
      rw [if_neg (by decide), if_pos hleft]
      refine ⟨h.past, ?_, current_chosen hd, rfl⟩
      intro hn
      cases hn
    | some s =>
      obtain ⟨-, hlt, hleft, -⟩ := h.current s hc
      have hpos : d.bytesLeft ≠ 0 := by omega
      rw [if_neg (by decide), if_neg hpos]
      refine ⟨h.past, ?_, ?_, rfl⟩
      · intro hn
        cases hn
      · rintro _ ⟨⟩
        exact h.current s hc

/-- A byte that is served belongs to the sample under way. -/
theorem Follows.serve (h : Follows l d) (hd : d.Fetching) (value : UInt8) :
    Follows (l.note d (.serve value)) (d.serve value) := by
  obtain ⟨htakes, requested, hserve⟩ | ⟨hreq, hpos, htakes, hserve⟩ := d.serve_cases value
  · unfold Ledger.note
    dsimp only
    rw [if_pos htakes, hserve]
    exact h.congr ⟨rfl, rfl, rfl⟩
  · unfold Ledger.note Ledger.take
    dsimp only
    rw [if_neg (by rw [htakes]; exact List.cons_ne_nil _ _), hserve]
    cases hc : l.current with
    | none => exact absurd (h.idle hc) (Nat.ne_of_gt hpos)
    | some s =>
      obtain ⟨hdropped, hlt, hleft, haddress⟩ := h.current s hc
      have hnext : nextAddress d.address = s.addressAt (s.count + 1) := by
        rw [haddress, s.nextAddress_addressAt]
      dsimp only
      by_cases hlast : d.bytesLeft = 1
      · have hdone : s.count + 1 = s.length := by omega
        have hpast : ∀ t ∈ l.past ++ [{ s with count := s.count + 1 }],
            if t.dropped then t.count < t.length else t.count = t.length := by
          intro t ht
          rcases List.mem_append.mp ht with ht | ht
          · exact h.past t ht
          · rw [List.mem_singleton.mp ht, hdropped]
            exact hdone
        rw [if_pos hlast, if_neg (Nat.not_lt.mpr (Nat.le_of_eq hdone.symm))]
        cases hloops : d.loops with
        | true =>
          rw [if_pos rfl, endSample_of_loops (d := d.taking value) hloops]
          refine ⟨hpast, ?_, current_chosen hd, h.irq⟩
          intro hn
          cases hn
        | false =>
          rw [if_neg Bool.false_ne_true, endSample_of_not (d := d.taking value) hloops]
          refine ⟨hpast, ?_, ?_, congrArg (· || d.irqEnabled) h.irq⟩
          · intro _
            show d.bytesLeft - 1 = 0
            omega
          · intro t ht
            cases ht
      · have hmore : s.count + 1 < s.length := by omega
        rw [if_neg hlast, if_pos hmore]
        refine ⟨h.past, ?_, ?_, h.irq⟩
        · intro hn
          cases hn
        · rintro _ ⟨⟩
          refine ⟨hdropped, hmore, ?_, hnext⟩
          show d.bytesLeft - 1 = s.length - (s.count + 1)
          omega

/-- Every move keeps the ledger in step with the channel. -/
theorem Follows.step (h : Follows l d) (hd : d.Fetching) (m : Move) :
    Follows (l.note d m) (d.step m) := by
  cases m with
  | expire => exact h.congr d.expired_sample
  | control data =>
    have hirq : (d.irq && (data &&& 0x80 != 0)) = (l.irq && (data &&& 0x80 != 0)) := by rw [h.irq]
    exact ⟨h.past, h.idle, h.current, hirq⟩
  | level data => exact h.congr ⟨rfl, rfl, rfl⟩
  | address data => exact h.congr ⟨rfl, rfl, rfl⟩
  | length data => exact h.congr ⟨rfl, rfl, rfl⟩
  | enable on => exact h.enable hd on
  | wait =>
    have hwait := tickStartDelay_eq d
    refine h.congr ?_
    show d.tickStartDelay.irq = d.irq ∧ d.tickStartDelay.bytesLeft = d.bytesLeft ∧
      d.tickStartDelay.address = d.address
    rw [hwait]
    exact ⟨rfl, rfl, rfl⟩
  | serve value => exact h.serve hd value

/-- After any moves the ledger says what the channel has left to read. -/
theorem follows_after (moves : List Move) : Follows (ledger moves) (powerOn.after moves) := by
  induction moves using List.reverseRecOn with
  | nil => exact follows_powerOn
  | append_singleton moves m ih =>
    have hstep := ih.step (fetching_powerOn.after moves) m
    unfold ledger at hstep ⊢
    rwa [track_concat, after_concat]

theorem samples_of_none (h : l.current = none) : l.samples = l.past := by
  unfold Ledger.samples
  rw [h]
  exact List.append_nil _

/-- The sample under way is the last of all samples. -/
theorem samples_of_some {s : Sample} (h : l.current = some s) : l.samples = l.past ++ [s] := by
  unfold Ledger.samples
  rw [h]
  rfl

/-- A sample that is started or dropped gets no byte by that. -/
theorem addresses_enable (l : Ledger) (d : Dmc) (on : Bool) :
    (l.enable d on).samples.flatMap Sample.addresses = l.samples.flatMap Sample.addresses := by
  cases hc : l.current with
  | none =>
    rw [samples_of_none hc]
    unfold Ledger.enable
    rw [hc]
    cases on with
    | false => rw [samples_of_none rfl]
    | true =>
      rw [samples_of_some rfl, List.flatMap_append]
      exact List.append_nil _
  | some s =>
    rw [samples_of_some hc]
    unfold Ledger.enable
    rw [hc]
    cases on with
    | false =>
      rw [samples_of_none rfl, List.flatMap_append, List.flatMap_append]
      rfl
    | true => rw [samples_of_some rfl]

/-- A byte that is taken is the next of the sample that is played. -/
theorem Follows.addresses_take (h : Follows l d) (hpos : 0 < d.bytesLeft) :
    (l.take d).samples.flatMap Sample.addresses =
      l.samples.flatMap Sample.addresses ++ [d.address] := by
  cases hc : l.current with
  | none => exact absurd (h.idle hc) (Nat.ne_of_gt hpos)
  | some s =>
    obtain ⟨-, -, -, haddress⟩ := h.current s hc
    have hmore : (l.past ++ [{ s with count := s.count + 1 }]).flatMap Sample.addresses =
        (l.past ++ [s]).flatMap Sample.addresses ++ [d.address] := by
      rw [List.flatMap_append, List.flatMap_append, List.append_assoc, List.flatMap_singleton,
        List.flatMap_singleton, s.addresses_succ, haddress]
    rw [samples_of_some hc, ← hmore]
    unfold Ledger.take
    rw [hc]
    dsimp only
    split
    · rw [samples_of_some rfl]
    · split
      · rw [samples_of_some rfl]
        exact List.flatMap_append.trans (List.append_nil _)
      · rw [samples_of_none rfl]

/-- The addresses that are asked for in a move are those of the bytes it adds to the samples. -/
theorem Follows.addresses_step (h : Follows l d) (m : Move) :
    (l.note d m).samples.flatMap Sample.addresses =
      l.samples.flatMap Sample.addresses ++ (d.takes m).map Prod.fst := by
  have hkept {k : Ledger} (hk : k.samples.flatMap Sample.addresses = l.samples.flatMap Sample.addresses) :
      k.samples.flatMap Sample.addresses =
        l.samples.flatMap Sample.addresses ++ ([] : List (UInt16 × UInt8)).map Prod.fst :=
    hk.trans (List.append_nil _).symm
  cases m with
  | expire => exact hkept rfl
  | control data => exact hkept rfl
  | level data => exact hkept rfl
  | address data => exact hkept rfl
  | length data => exact hkept rfl
  | enable on => exact hkept (addresses_enable l d on)
  | wait => exact hkept rfl
  | serve value =>
    obtain ⟨htakes, -⟩ | ⟨-, hpos, htakes, -⟩ := d.serve_cases value
    · unfold Ledger.note
      dsimp only
      rw [if_pos htakes, htakes]
      exact hkept rfl
    · unfold Ledger.note
      dsimp only
      rw [if_neg (by rw [htakes]; exact List.cons_ne_nil _ _), htakes]
      exact h.addresses_take hpos

/-- The addresses read are those of the samples, one after the other. -/
theorem addresses_eq (moves : List Move) :
    (taken moves).map Prod.fst = (ledger moves).samples.flatMap Sample.addresses := by
  induction moves using List.reverseRecOn with
  | nil => rfl
  | append_singleton moves m ih =>
    have hstep := (follows_after moves).addresses_step m
    unfold taken ledger at ih hstep ⊢
    rw [track_concat, track_concat, List.map_append, ih, hstep]

/-! ## Bits

  A byte that has been loaded is played over the next eight expiries, whatever else is done in between. -/

/-- Of a byte that was loaded, `k` bits are through. -/
structure Playing (byte : UInt8) (k : Nat) (d : Dmc) : Prop where
  voiced : d.silent = false
  bits : d.bitsLeft + k = 8
  shift : d.shift.toNat = byte.toNat / 2 ^ k

variable {byte : UInt8} {k : Nat}

/-- A byte that is loaded is played from its lowest bit. -/
theorem playing_of_loads (h : d.loads m = [byte]) : Playing byte 0 (d.step m) := by
  cases m with
  | expire =>
    by_cases hbits : d.bitsLeft = 1
    · cases hb : d.buffer with
      | none => cases (loads_of_none hbits hb).symm.trans h
      | some byte' =>
        cases (loads_of_some hbits hb).symm.trans h
        obtain ⟨requested, he⟩ := expired_of_some hbits hb
        show Playing byte 0 d.expired
        rw [he]
        exact ⟨rfl, rfl, (Nat.div_one _).symm⟩
    · cases (loads_of_ne hbits).symm.trans h
  | control data => cases h
  | level data => cases h
  | address data => cases h
  | length data => cases h
  | enable on => cases h
  | wait => cases h
  | serve value => cases h

/-- Only an expiry plays; what else becomes of the level is written. -/
theorem step_bits (hm : m ≠ .expire) : (d.step m).silent = d.silent ∧
    (d.step m).bitsLeft = d.bitsLeft ∧ (d.step m).shift = d.shift ∧
      ((d.step m).level = d.level ∨ (d.step m).level.toNat ≤ 127) := by
  cases m with
  | expire => exact absurd rfl hm
  | control data => exact ⟨rfl, rfl, rfl, .inl rfl⟩
  | level data =>
    refine ⟨rfl, rfl, rfl, .inr ?_⟩
    show (data &&& 0x7F).toNat ≤ 127
    rw [UInt8.toNat_and]
    exact Nat.and_le_right
  | address data => exact ⟨rfl, rfl, rfl, .inl rfl⟩
  | length data => exact ⟨rfl, rfl, rfl, .inl rfl⟩
  | enable on =>
    unfold step
    dsimp only
    rw [setEnabled_eq]
    exact ⟨rfl, rfl, rfl, .inl rfl⟩
  | wait =>
    unfold step
    dsimp only
    rw [tickStartDelay_eq]
    exact ⟨rfl, rfl, rfl, .inl rfl⟩
  | serve value =>
    unfold step
    dsimp only
    obtain ⟨-, requested, hserve⟩ | ⟨-, -, -, hserve⟩ := d.serve_cases value
    · rw [hserve]
      exact ⟨rfl, rfl, rfl, .inl rfl⟩
    · rw [hserve]
      split
      · rw [endSample_eq]
        exact ⟨rfl, rfl, rfl, .inl rfl⟩
      · exact ⟨rfl, rfl, rfl, .inl rfl⟩

/-- Every expiry goes on by one bit. -/
theorem Playing.expired (h : Playing byte k d) (hk : k < 7) : Playing byte (k + 1) d.expired := by
  have hbits := h.bits
  have hplay : d.playBit.shift = d.shift >>> 1 := by
    unfold playBit
    rw [if_neg (Bool.eq_false_iff.mp h.voiced)]
  rw [expired_of_ne (by omega)]
  refine ⟨?_, ?_, ?_⟩
  · rw [playBit_eq]
    exact h.voiced
  · show d.bitsLeft - 1 + (k + 1) = 8
    omega
  · show d.playBit.shift.toNat = _
    rw [hplay, UInt8.toNat_shiftRight, h.shift, Nat.pow_succ, ← Nat.div_div_eq_div_mul]
    rfl

/-- After so many expiries as many bits have been played. -/
theorem Playing.after (h : Playing byte k d) (rest : List Move) (hk : k + rest.count .expire < 8) :
    Playing byte (k + rest.count .expire) (d.after rest) := by
  induction rest generalizing d k with
  | nil => exact h
  | cons m rest ih =>
    by_cases hm : m = .expire
    · subst hm
      rw [List.count_cons_self] at hk ⊢
      have hnext : Playing byte (k + 1) (d.step .expire) := h.expired (by omega)
      have := ih hnext (by omega)
      rwa [show k + (rest.count .expire + 1) = k + 1 + rest.count .expire by omega]
    · rw [List.count_cons_of_ne hm] at hk ⊢
      obtain ⟨hsilent, hbits, hshift, -⟩ := step_bits (d := d) hm
      have hsame : Playing byte k (d.step m) :=
        ⟨hsilent.trans h.voiced, by rw [hbits]; exact h.bits, by rw [hshift]; exact h.shift⟩
      exact ih hsame hk

/-- A bit moves the level up or down by two, unless that leaves seven bits. -/
theorem nextLevel_toNat {level : UInt8} (h : level.toNat ≤ 127) (up : Bool) :
    ((nextLevel level up).toNat : Int) = moved level.toNat up := by
  unfold nextLevel moved
  cases up with
  | true =>
    rw [if_pos rfl]
    by_cases hle : level.toNat ≤ 125
    · rw [if_pos (show level ≤ 125 from hle), UInt8.toNat_add]
      dsimp only
      rw [if_pos rfl, if_pos (by omega)]
      show (((level.toNat + 2) % 256 : Nat) : Int) = _
      omega
    · rw [if_neg (show ¬ level ≤ 125 from hle)]
      dsimp only
      rw [if_pos rfl, if_neg (by omega)]
  | false =>
    rw [if_neg Bool.false_ne_true]
    by_cases hle : 2 ≤ level.toNat
    · rw [if_pos (show 2 ≤ level from hle), UInt8.toNat_sub_of_le _ _ hle]
      dsimp only
      rw [if_neg Bool.false_ne_true, if_pos (by omega)]
      show ((level.toNat - 2 : Nat) : Int) = _
      omega
    · rw [if_neg (show ¬ 2 ≤ level from hle)]
      dsimp only
      rw [if_neg Bool.false_ne_true, if_neg (by omega)]

/-- The lowest bit of what is left of a byte. -/
theorem Playing.up (h : Playing byte k d) : (d.shift &&& 0x01 != 0) = byte.toNat.testBit k := by
  have hlow : (d.shift &&& 0x01).toNat = byte.toNat / 2 ^ k % 2 := by
    rw [UInt8.toNat_and, h.shift]
    exact Nat.and_one_is_mod _
  rw [Nat.testBit_eq_decide_div_mod_eq, Bool.eq_iff_iff, bne_iff_ne, decide_eq_true_iff, Ne,
    ← UInt8.toNat_inj, hlow]
  show ¬ _ = 0 ↔ _
  omega

/-- The bit that is played moves the level. -/
theorem Playing.level (h : Playing byte k d) (hlevel : d.level.toNat ≤ 127) :
    (d.expired.level.toNat : Int) = moved d.level.toNat (byte.toNat.testBit k) := by
  have hplay : d.playBit.level = nextLevel d.level (d.shift &&& 0x01 != 0) := by
    unfold playBit
    rw [if_neg (Bool.eq_false_iff.mp h.voiced)]
  rw [expired_eq]
  show (d.playBit.level.toNat : Int) = _
  rw [hplay, nextLevel_toNat hlevel, h.up]

/-- In silence the level stays. -/
theorem expired_level_of_silent (h : d.silent = true) : d.expired.level = d.level := by
  have hplay : d.playBit = d := if_pos h
  rw [expired_eq, hplay]

/-- The level stays in range, whatever is played or written. -/
theorem level_step (h : d.level.toNat ≤ 127) (m : Move) : (d.step m).level.toNat ≤ 127 := by
  by_cases hm : m = .expire
  · subst hm
    show d.expired.level.toNat ≤ 127
    rw [expired_eq]
    show d.playBit.level.toNat ≤ 127
    unfold playBit
    split
    · exact h
    · have hnext := nextLevel_toNat h (d.shift &&& 0x01 != 0)
      show (nextLevel d.level _).toNat ≤ 127
      unfold moved at hnext
      dsimp only at hnext
      split at hnext
      · omega
      · omega
  · obtain ⟨-, -, -, hlevel | hlevel⟩ := step_bits (d := d) hm
    · rw [hlevel]
      exact h
    · exact hlevel

/-- After any moves the level is of seven bits. -/
theorem level_le (moves : List Move) : (powerOn.after moves).level.toNat ≤ 127 := by
  induction moves using List.reverseRecOn with
  | nil => decide
  | append_singleton moves m ih =>
    rw [after_concat]
    exact level_step ih m

/-- A channel that is not silent plays a byte that was loaded fewer than eight expiries ago. -/
theorem loaded_of_voiced (h : (powerOn.after moves).silent = false) :
    ∃ pre m rest byte, moves = pre ++ m :: rest ∧ (powerOn.after pre).loads m = [byte] ∧
      rest.count .expire < 8 := by
  induction moves using List.reverseRecOn with
  | nil => cases h
  | append_singleton moves m ih =>
    rw [after_concat] at h
    by_cases hm : m = .expire
    · subst hm
      by_cases hbits : (powerOn.after moves).bitsLeft = 1
      · -- the byte is loaded in this very move
        refine ⟨moves, .expire, [], (powerOn.after moves).expired.shift, rfl, if_pos ⟨hbits, h⟩, ?_⟩
        exact Nat.succ_pos 7
      · have hvoiced : (powerOn.after moves).silent = false := by
          have hsame : (powerOn.after moves).expired.silent = (powerOn.after moves).silent := by
            rw [expired_of_ne hbits, playBit_eq]
          exact hsame.symm.trans h
        obtain ⟨pre, m, rest, byte, rfl, hload, hrest⟩ := ih hvoiced
        refine ⟨pre, m, rest ++ [.expire], byte, (List.append_assoc _ _ _), hload, ?_⟩
        have hplaying := (playing_of_loads hload).after rest (by omega)
        rw [Nat.zero_add, ← after_cons, ← after_append] at hplaying
        have hleft := hplaying.bits
        rw [List.count_append, List.count_singleton_self]
        omega
    · obtain ⟨hsilent, -⟩ := step_bits (d := powerOn.after moves) hm
      obtain ⟨pre, m', rest, byte, rfl, hload, hrest⟩ := ih (hsilent.symm.trans h)
      refine ⟨pre, m', rest ++ [m], byte, (List.append_assoc _ _ _), hload, ?_⟩
      rw [List.count_append, List.count_singleton, if_neg (by simpa using hm)]
      exact hrest

/-! ## The three streams -/

/-- The streams of the channel at a point of a run. -/
structure Streams (moves : List Move) : Prop where
  /-- The bytes that were taken are the bytes that were loaded, in order, each once, and at most one that
      still waits. -/
  bytes : (taken moves).map Prod.snd = loaded moves ++ (powerOn.after moves).buffer.toList
  /-- The addresses that were asked for are those of the samples, one sample after the other. -/
  addresses : (taken moves).map Prod.fst = (ledger moves).samples.flatMap Sample.addresses
  /-- The samples are started, ended and dropped as the ledger has it, and so is the interrupt raised. -/
  samples : Follows (ledger moves) (powerOn.after moves)
  /-- After a byte was loaded each of eight expiries plays the next bit of it, from the lowest on, and
      with the eighth the byte that waits is loaded. -/
  bits : ∀ pre m rest byte, moves = pre ++ m :: rest → (powerOn.after pre).loads m = [byte] →
    rest.count .expire < 8 →
      (((powerOn.after moves).step .expire).level.toNat : Int) =
        moved (powerOn.after moves).level.toNat (byte.toNat.testBit (rest.count .expire)) ∧
      (powerOn.after moves).loads .expire =
        if rest.count .expire = 7 then (powerOn.after moves).buffer.toList else []
  /-- Every other expiry leaves the level alone. -/
  silence : (∀ pre m rest byte, moves = pre ++ m :: rest → (powerOn.after pre).loads m = [byte] →
      8 ≤ rest.count .expire) →
    ((powerOn.after moves).step .expire).level = (powerOn.after moves).level

/-- Any moves from power-on are streams of samples. -/
theorem streams (moves : List Move) : Streams moves := by
  refine ⟨taken_eq moves, addresses_eq moves, follows_after moves, ?_, ?_⟩
  · rintro pre m rest byte hmoves hload hrest
    have hplaying := (playing_of_loads hload).after rest (by omega)
    rw [Nat.zero_add, ← after_cons, ← after_append, ← hmoves] at hplaying
    have hbits := hplaying.bits
    refine ⟨hplaying.level (level_le moves), ?_⟩
    split
    · next hlast =>
      have hone : (powerOn.after moves).bitsLeft = 1 := by omega
      cases hb : (powerOn.after moves).buffer with
      | none => exact loads_of_none hone hb
      | some waiting => exact loads_of_some hone hb
    · next hlast => exact loads_of_ne (by omega)
  · intro hall
    cases hvoiced : (powerOn.after moves).silent with
    | true => exact expired_level_of_silent hvoiced
    | false =>
      obtain ⟨pre, m, rest, byte, hmoves, hload, hrest⟩ := loaded_of_voiced hvoiced
      have := hall pre m rest byte hmoves hload
      omega

/-- A byte that was fetched is loaded after the eight expiries of the silence before it. -/
example : taken [.enable true, .wait, .wait, .serve 0x55] = [(0xC000, 0x55)] ∧
    loaded ([.enable true, .wait, .wait, .serve 0x55] ++ .replicate 8 .expire) = [0x55] := by decide

end Famicom.Dmc

namespace Famicom.Sound

/-- From power-on or a reset on, where each request is answered at once with one byte and nothing else is
    handed in: the channel is what the moves of the run make of it, and at every point of the run its
    bytes, its addresses and its bits are as they should be. -/
theorem Begun.sampleStream {s : Sound} (h : s.Begun) (acts : List Act) :
    (s.performAll acts).dmc.bare = Dmc.powerOn.after (s.history acts) ∧
      ∀ moves, moves <+: s.history acts → Dmc.Streams moves :=
  ⟨h.bare_run acts, fun moves _ => Dmc.streams moves⟩

/-- A sample is started in a new unit and its first byte is fetched. -/
theorem Begun.sampleStream_first : ∃ s, Sound.new .ntsc {} = .ok s ∧
    (s.performAll [.write 0x4015 0x10, .process, .process, .serve 0x55]).dmc.bare =
      Dmc.powerOn.after (s.history [.write 0x4015 0x10, .process, .process, .serve 0x55]) ∧
    ∀ moves, moves <+: s.history [.write 0x4015 0x10, .process, .process, .serve 0x55] →
      Dmc.Streams moves := by
  have hexists : ∃ s, Sound.new .ntsc {} = .ok s := Sound.exists_new (by decide) (by decide) (by decide) .ntsc
  obtain ⟨s, hs⟩ := hexists
  exact ⟨s, hs, Begun.sampleStream (.new hs) _⟩

end Famicom.Sound
