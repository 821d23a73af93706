/-
  Bytes added or subtracted one after the other are long numbers.

  1. **Numbers** (`number`, `signed`): bytes with the lowest first stand for a number, and for one with a
     sign if the highest bit counts below zero.
  2. **One byte** (`adc_spec`): the sum is split between the accumulator and the carry, and overflow
     says that the sum of the bytes with their signs does not fit.
  3. **Many bytes** (`chain_adc_spec`): by induction, the carry that one byte leaves is what the next
     adds, and only the last byte has a sign.
  4. **Subtraction** (`number_complement`, `signed_complement`): the complement of a number is one less
     than its opposite, which a set carry makes good.

  Main statement: a chain of additions is the sum and a chain of subtractions the difference, with the
  carry and the overflow of the whole, and the decimal flag does nothing (`chains_are_arithmetic`).
-/
import Mathlib.Data.Nat.Digits.Defs
import Mathlib.Tactic.Ring
import Famicom.Processor.Registers
import Famicom.Proofs.Words

namespace Famicom

/-! ## Numbers -/

/-- The number that bytes stand for, the lowest byte first. -/
def number (bs : List UInt8) : Nat := Nat.ofDigits 256 (bs.map UInt8.toNat)

theorem number_cons (b : UInt8) (bs : List UInt8) : number (b :: bs) = b.toNat + 256 * number bs :=
  Nat.ofDigits_cons

/-- The number that bytes stand for if their highest bit counts below zero. -/
def signed (bs : List UInt8) : Int := (number bs : Int).bmod (256 ^ bs.length)

/-- So many bytes with a sign hold the number. -/
def Fits (n : Nat) (x : Int) : Prop := -256 ^ n ≤ 2 * x ∧ 2 * x < 256 ^ n

/-- So many bytes are a number below that power of 256. -/
theorem number_lt (bs : List UInt8) : number bs < 256 ^ bs.length := by
  have hbytes : ∀ d ∈ bs.map UInt8.toNat, d < 256 := by
    intro d hd
    obtain ⟨b, -, rfl⟩ := List.mem_map.mp hd
    exact b.toNat_lt
  rw [← List.length_map UInt8.toNat]
  exact Nat.ofDigits_lt_base_pow_length (by decide) hbytes

/-- There is an even number of numbers of one byte and more. -/
theorem pow_eq_two_mul {n : Nat} (hn : 0 < n) : ∃ half : Nat, 256 ^ n = 2 * half := by
  obtain ⟨n, rfl⟩ : ∃ m, n = m + 1 := ⟨n - 1, by omega⟩
  exact ⟨256 ^ n * 128, by rw [Nat.pow_succ]; omega⟩

theorem fits_signed (bs : List UInt8) : Fits bs.length (signed bs) := by
  have hpos : 0 < 256 ^ bs.length := Nat.pow_pos (by decide)
  have hlow := Int.le_bmod (x := number bs) hpos
  have hhigh := Int.bmod_lt (x := number bs) hpos
  unfold Fits signed
  push_cast at *
  omega

/-- Bytes stand for the one number that fits them and differs by what they cannot hold. -/
theorem signed_eq {bs : List UInt8} {x k : Int} (hpos : 0 < bs.length) (hfits : Fits bs.length x)
    (hnumber : (number bs : Int) = x + 256 ^ bs.length * k) : signed bs = x := by
  obtain ⟨half, hhalf⟩ := pow_eq_two_mul hpos
  have hcast : (256 : Int) ^ bs.length = 2 * half := by exact_mod_cast hhalf
  obtain ⟨hlow, hhigh⟩ := hfits
  have hfits : x.bmod (256 ^ bs.length) = x := by
    rw [hhalf]
    exact Int.bmod_eq_of_le (by push_cast; omega) (by push_cast; omega)
  have hpow : (256 : Int) ^ bs.length = ((256 ^ bs.length : Nat) : Int) := by push_cast; rfl
  rw [signed, hnumber, hpow, Int.add_mul_bmod_self_left, hfits]

/-- What the highest bit takes away from a number. -/
theorem number_eq_signed (bs : List UInt8) : ∃ k, (number bs : Int) = signed bs + 256 ^ bs.length * k := by
  refine ⟨Int.bdiv (number bs) (256 ^ bs.length), ?_⟩
  exact_mod_cast (Int.bmod_add_bdiv (number bs) (256 ^ bs.length)).symm

/-- The sign is a matter of the bytes above. -/
theorem signed_cons (b : UInt8) {bs : List UInt8} (hpos : 0 < bs.length) :
    signed (b :: bs) = b.toNat + 256 * signed bs := by
  obtain ⟨k, hk⟩ := number_eq_signed bs
  obtain ⟨half, hhalf⟩ := pow_eq_two_mul hpos
  have hcast : (256 : Int) ^ bs.length = 2 * half := by exact_mod_cast hhalf
  obtain ⟨hlow, hhigh⟩ := fits_signed bs
  have hb := b.toNat_lt
  refine signed_eq (k := k) (Nat.succ_pos _) ⟨?_, ?_⟩ ?_
  · rw [List.length_cons, Int.pow_succ]
    omega
  · rw [List.length_cons, Int.pow_succ]
    omega
  · rw [number_cons, List.length_cons]
    push_cast
    rw [hk]
    ring

theorem signed_singleton (b : UInt8) :
    signed [b] = if b.toNat < 128 then (b.toNat : Int) else b.toNat - 256 := by
  have hb := b.toNat_lt
  split
  · exact signed_eq (k := 0) Nat.one_pos ⟨by simp; omega, by simp; omega⟩ (by simp [number])
  · exact signed_eq (k := 1) Nat.one_pos ⟨by simp; omega, by simp; omega⟩ (by simp [number])

/-! ## One byte -/

namespace Registers

/-- Overflow is a sign that neither of the two bytes has. -/
theorem overflow_eq (a v result : UInt8) : ((a ^^^ result) &&& (v ^^^ result) &&& 0x80 != 0) =
    ((decide (128 ≤ a.toNat) ^^ decide (128 ≤ result.toNat)) &&
      (decide (128 ≤ v.toNat) ^^ decide (128 ≤ result.toNat))) := by
  have hmsb (w : UInt8) : w.toBitVec.msb = decide (128 ≤ w.toNat) := BitVec.msb_eq_decide _
  have htop : ∀ w : UInt8, (w &&& 0x80 != 0) = w.toBitVec.msb := forall_byte (by decide +kernel)
  rw [htop, UInt8.toBitVec_and, UInt8.toBitVec_xor, UInt8.toBitVec_xor, BitVec.msb_and, BitVec.msb_xor,
    BitVec.msb_xor, hmsb, hmsb, hmsb]

theorem get_carry_loadA (r : Registers) (v : UInt8) :
    (r.loadA v).status.get .carry = r.status.get .carry := by
  show ((r.status.set .zero _).set .negative _).get .carry = _
  rw [Status.get_set_of_ne _ _ (by decide), Status.get_set_of_ne _ _ (by decide)]

theorem get_overflow_loadA (r : Registers) (v : UInt8) :
    (r.loadA v).status.get .overflow = r.status.get .overflow := by
  show ((r.status.set .zero _).set .negative _).get .overflow = _
  rw [Status.get_set_of_ne _ _ (by decide), Status.get_set_of_ne _ _ (by decide)]

/-- The sum is split between the accumulator and the carry, and overflow says that with their signs the
    bytes do not add up to one. -/
theorem adc_spec (r : Registers) (v : UInt8) :
    (r.adc v).a.toNat + 256 * ((r.adc v).status.get .carry).toNat =
        r.a.toNat + v.toNat + (r.status.get .carry).toNat ∧
      ((r.adc v).status.get .overflow = true ↔
        ¬Fits 1 (signed [r.a] + signed [v] + (r.status.get .carry).toNat)) := by
  have ha := r.a.toNat_lt
  have hv := v.toNat_lt
  have hc := (r.status.get .carry).toNat_le
  let sum := r.a.toNat + v.toNat + (r.status.get .carry).toNat
  have hcarry : (r.adc v).status.get .carry = decide (255 < sum) := by
    unfold adc
    rw [get_carry_loadA]
    show (Status.set _ .overflow _).get .carry = _
    rw [Status.get_set_of_ne _ _ (by decide)]
    exact Status.get_set_self ..
  have hoverflow : (r.adc v).status.get .overflow =
      ((r.a ^^^ .ofNat sum) &&& (v ^^^ .ofNat sum) &&& 0x80 != 0) := by
    unfold adc
    rw [get_overflow_loadA]
    exact Status.get_set_self ..
  have ha' : (r.adc v).a = .ofNat sum := rfl
  have hresult : (UInt8.ofNat sum).toNat = sum % 256 := UInt8.toNat_ofNat'
  constructor
  · rw [hcarry, ha', hresult]
    by_cases h : 255 < sum
    · rw [decide_eq_true h, Bool.toNat_true]
      omega
    · rw [decide_eq_false h, Bool.toNat_false]
      omega
  · rw [hoverflow, overflow_eq, hresult, signed_singleton, signed_singleton]
    unfold Fits
    rw [Bool.and_eq_true, bne_iff_ne, bne_iff_ne, ne_eq, ne_eq, decide_eq_decide, decide_eq_decide]
    omega

theorem loadA_adc_spec (r : Registers) (a v : UInt8) :
    ((r.loadA a).adc v).a.toNat + 256 * (((r.loadA a).adc v).status.get .carry).toNat =
        a.toNat + v.toNat + (r.status.get .carry).toNat ∧
      (((r.loadA a).adc v).status.get .overflow = true ↔
        ¬Fits 1 (signed [a] + signed [v] + (r.status.get .carry).toNat)) := by
  rw [← get_carry_loadA r a]
  exact (r.loadA a).adc_spec v

/-! ## Many bytes -/

/-- Bytes are loaded and others combined with them, pair by pair: what comes out, and the registers in the
    end. -/
def chain (op : ReadOp) : List UInt8 → List UInt8 → Registers → List UInt8 × Registers
  | a :: p, v :: q, r =>
    let r := op.apply v (ReadOp.lda.apply a r)
    let (bytes, last) := chain op p q r
    (r.a :: bytes, last)
  | _, _, r => ([], r)

/-- The bytes that are loaded, those added and the carry make up the bytes that come out and the last carry.
    By induction over the pairs: the carry between two of them is counted on either side. -/
theorem chain_adc_number {p q : List UInt8} (hlen : p.length = q.length) (r : Registers) :
    (chain .adc p q r).1.length = p.length ∧
      number (chain .adc p q r).1 +
          256 ^ p.length * ((chain .adc p q r).2.status.get .carry).toNat =
        number p + number q + (r.status.get .carry).toNat := by
  induction p generalizing q r with
  | nil =>
    obtain rfl : q = [] := List.length_eq_zero_iff.mp hlen.symm
    exact ⟨rfl, by simp [chain, number]⟩
  | cons a p ih =>
    obtain _ | ⟨v, q⟩ := q
    · cases hlen
    obtain ⟨hlength, hnumber⟩ := ih (Nat.succ.inj hlen) ((r.loadA a).adc v)
    have hbyte := (r.loadA_adc_spec a v).1
    refine ⟨congrArg Nat.succ hlength, ?_⟩
    calc number (chain .adc (a :: p) (v :: q) r).1 + 256 ^ (a :: p).length *
          ((chain .adc (a :: p) (v :: q) r).2.status.get .carry).toNat
      _ = ((r.loadA a).adc v).a.toNat + 256 * (number (chain .adc p q ((r.loadA a).adc v)).1 +
          256 ^ p.length * ((chain .adc p q ((r.loadA a).adc v)).2.status.get .carry).toNat) := by
        rw [List.length_cons, Nat.pow_succ, chain, number_cons]
        simp only [ReadOp.apply]
        ring
      _ = a.toNat + v.toNat + (r.status.get .carry).toNat + 256 * (number p + number q) := by
        rw [hnumber, ← hbyte]
        ring
      _ = number (a :: p) + number (v :: q) + (r.status.get .carry).toNat := by
        rw [number_cons, number_cons]
        ring

/-- The last byte decides about overflow. -/
theorem chain_adc_overflow {p q : List UInt8} (hlen : p.length = q.length) (hpos : 0 < p.length)
    (r : Registers) :
    (chain .adc p q r).2.status.get .overflow = true ↔
      ¬Fits p.length (signed p + signed q + (r.status.get .carry).toNat) := by
  induction p generalizing q r with
  | nil => cases hpos
  | cons a p ih =>
    obtain _ | ⟨v, q⟩ := q
    · cases hlen
    have hlen : p.length = q.length := Nat.succ.inj hlen
    obtain ⟨hbyte, hover⟩ := r.loadA_adc_spec a v
    rcases Nat.eq_zero_or_pos p.length with hnil | hmore
    · obtain rfl : p = [] := List.length_eq_zero_iff.mp hnil
      obtain rfl : q = [] := List.length_eq_zero_iff.mp hlen.symm
      exact hover
    · obtain ⟨half, hhalf⟩ := pow_eq_two_mul hmore
      have hcast : (256 : Int) ^ p.length = 2 * half := by exact_mod_cast hhalf
      have hresult := ((r.loadA a).adc v).a.toNat_lt
      rw [signed_cons a hmore, signed_cons v (hlen ▸ hmore)]
      refine (ih hlen hmore ((r.loadA a).adc v)).trans (not_congr ?_)
      unfold Fits
      rw [List.length_cons, Int.pow_succ, hcast]
      omega

/-! ## Subtraction -/

theorem number_complement (q : List UInt8) :
    number (q.map (~~~·)) + number q + 1 = 256 ^ q.length := by
  induction q with
  | nil => rfl
  | cons v q ih =>
    have hv := v.toNat_lt
    have hnot : (~~~v).toNat = 255 - v.toNat := UInt8.toNat_not v
    rw [List.map_cons, number_cons, number_cons, hnot, List.length_cons, Nat.pow_succ]
    omega

theorem signed_complement {q : List UInt8} (hpos : 0 < q.length) :
    signed (q.map (~~~·)) = -1 - signed q := by
  obtain ⟨k, hk⟩ := number_eq_signed q
  obtain ⟨half, hhalf⟩ := pow_eq_two_mul hpos
  have hcast : (256 : Int) ^ q.length = 2 * half := by exact_mod_cast hhalf
  obtain ⟨hlow, hhigh⟩ := fits_signed q
  have hsum : (number (q.map (~~~·)) : Int) + number q + 1 = 256 ^ q.length := by
    exact_mod_cast number_complement q
  refine signed_eq (k := 1 - k) (by rwa [List.length_map]) ⟨?_, ?_⟩ ?_
  · rw [List.length_map]
    omega
  · rw [List.length_map]
    omega
  · rw [List.length_map, Int.mul_sub, Int.mul_one]
    omega

/-- To subtract bytes is to add their complements. -/
theorem chain_sbc (p q : List UInt8) (r : Registers) :
    chain .sbc p q r = chain .adc p (q.map (~~~·)) r := by
  induction p generalizing q r with
  | nil => rfl
  | cons a p ih =>
    cases q with
    | nil => rfl
    | cons v q =>
      rw [List.map_cons, chain, chain, ih]
      rfl

/-! ## The decimal flag -/

/-- A result is shown by other flags. -/
theorem loadA_decimal (r : Registers) (v : UInt8) (on : Bool) :
    (r.setFlag .decimal on).loadA v = (r.loadA v).setFlag .decimal on := by
  have hstatus (s : Status) :
      (s.set .decimal on).setZeroNegative v = (s.setZeroNegative v).set .decimal on := by
    unfold Status.setZeroNegative
    rw [Status.set_comm s (f := .decimal) (g := .zero) (by decide),
      Status.set_comm _ (f := .decimal) (g := .negative) (by decide)]
  exact congrArg (fun status => { r with a := v, status }) (hstatus r.status)

theorem adc_decimal (r : Registers) (v : UInt8) (on : Bool) :
    (r.setFlag .decimal on).adc v = (r.adc v).setFlag .decimal on := by
  have hcarry : (r.setFlag .decimal on).status.get .carry = r.status.get .carry :=
    Status.get_set_of_ne r.status on (by decide)
  have hflags (carry overflow : Bool) :
      ((r.setFlag .decimal on).setFlag .carry carry).setFlag .overflow overflow =
        ((r.setFlag .carry carry).setFlag .overflow overflow).setFlag .decimal on := by
    have hstatus : ((r.status.set .decimal on).set .carry carry).set .overflow overflow =
        ((r.status.set .carry carry).set .overflow overflow).set .decimal on := by
      rw [Status.set_comm r.status (f := .decimal) (g := .carry) (by decide),
        Status.set_comm _ (f := .decimal) (g := .overflow) (by decide)]
    exact congrArg (fun status => { r with status }) hstatus
  unfold adc
  rw [hcarry, ← loadA_decimal, ← hflags]
  rfl

theorem chain_decimal (p q : List UInt8) (r : Registers) (on : Bool) :
    chain .adc p q (r.setFlag .decimal on) =
      ((chain .adc p q r).1, (chain .adc p q r).2.setFlag .decimal on) := by
  induction p generalizing q r with
  | nil => rfl
  | cons a p ih =>
    cases q with
    | nil => rfl
    | cons v q =>
      rw [chain, chain]
      simp only [ReadOp.apply, loadA_decimal, adc_decimal, ih]
      rfl

/-- What a number is made up of besides its carry is the rest. -/
theorem rest_of_carry {n whole x : Nat} {carry : Bool} (h : n + whole * carry.toNat = x) (hn : n < whole) :
    n = x % whole ∧ (carry = true ↔ whole ≤ x) := by
  constructor
  · rw [← h, Nat.add_mul_mod_self_left, Nat.mod_eq_of_lt hn]
  · cases carry with
    | false => exact iff_of_false Bool.false_ne_true (by rw [← h, Bool.toNat_false]; omega)
    | true => exact iff_of_true rfl (by rw [← h, Bool.toNat_true]; omega)

/-- Bytes added one after the other with the carry clear at first are the sum of the numbers, and bytes
    subtracted with the carry set at first the difference: modulo what so many bytes hold, with the carry
    as the carry and as the missing borrow of the whole, and with overflow if the numbers with their signs
    do not come to one that fits.  All this is the same with the decimal flag set or clear, which stays as
    it is. -/
theorem chains_are_arithmetic (r : Registers) (p q : List UInt8) (hlen : p.length = q.length)
    (hpos : 0 < p.length) :
    (∀ bytes last, chain .adc p q (ImpliedOp.clc.apply r) = (bytes, last) →
      bytes.length = p.length ∧ number bytes = (number p + number q) % 256 ^ p.length ∧
        (last.status.get .carry = true ↔ 256 ^ p.length ≤ number p + number q) ∧
        (last.status.get .overflow = true ↔ ¬Fits p.length (signed p + signed q))) ∧
    (∀ bytes last, chain .sbc p q (ImpliedOp.sec.apply r) = (bytes, last) →
      bytes.length = p.length ∧ (number bytes : Int) = ((number p : Int) - number q) % 256 ^ p.length ∧
        (last.status.get .carry = true ↔ number q ≤ number p) ∧
        (last.status.get .overflow = true ↔ ¬Fits p.length (signed p - signed q))) ∧
    ∀ op, op = .adc ∨ op = .sbc → ∀ on, chain op p q (r.setFlag .decimal on) =
      ((chain op p q r).1, (chain op p q r).2.setFlag .decimal on) := by
  refine ⟨?_, ?_, ?_⟩
  · intro bytes last hchain
    have hclear : (ImpliedOp.clc.apply r).status.get .carry = false := Status.get_set_self ..
    obtain ⟨hlength, hnumber⟩ := chain_adc_number hlen (ImpliedOp.clc.apply r)
    have hover := chain_adc_overflow hlen hpos (ImpliedOp.clc.apply r)
    rw [hchain] at hlength hnumber hover
    rw [hclear, Bool.toNat_false] at hnumber hover
    obtain ⟨hrest, hcarry⟩ := rest_of_carry hnumber (hlength ▸ number_lt bytes)
    rw [Int.ofNat_zero, Int.add_zero] at hover
    exact ⟨hlength, hrest, hcarry, hover⟩
  · intro bytes last hchain
    have hset : (ImpliedOp.sec.apply r).status.get .carry = true := Status.get_set_self ..
    have hlen' : p.length = (q.map (~~~·)).length := by rw [hlen, List.length_map]
    rw [chain_sbc] at hchain
    obtain ⟨hlength, hnumber⟩ := chain_adc_number hlen' (ImpliedOp.sec.apply r)
    have hover := chain_adc_overflow hlen' hpos (ImpliedOp.sec.apply r)
    rw [hchain] at hlength hnumber hover
    rw [hset, Bool.toNat_true] at hnumber hover
    obtain ⟨hrest, hcarry⟩ := rest_of_carry hnumber (hlength ▸ number_lt bytes)
    have hcomplement := number_complement q
    rw [← hlen] at hcomplement
    refine ⟨hlength, ?_, ?_, ?_⟩
    · have hopposite : ((number p + number (q.map (~~~·)) + 1 : Nat) : Int) =
          (number p - number q : Int) + (256 ^ p.length : Nat) := by
        omega
      rw [hrest, Int.natCast_emod, hopposite, Int.add_emod_right]
      push_cast
      rfl
    · rw [hcarry]
      omega
    · rw [signed_complement (hlen ▸ hpos)] at hover
      have hdifference : signed p + (-1 - signed q) + (1 : Nat) = signed p - signed q := by omega
      rwa [hdifference] at hover
  · rintro op (rfl | rfl) on
    · exact chain_decimal p q r on
    · rw [chain_sbc, chain_sbc]
      exact chain_decimal p _ r on

/-- In two bytes, 500 and 12 are 512, and 500 less 12 is 488. -/
theorem chains_are_arithmetic_500 :
    number [0xF4, 0x01] = 500 ∧ number [0x0C, 0x00] = 12 ∧
    (chain .adc [0xF4, 0x01] [0x0C, 0x00] (ImpliedOp.clc.apply default)).1 = [0x00, 0x02] ∧
    number [0x00, 0x02] = (number [0xF4, 0x01] + number [0x0C, 0x00]) % 256 ^ 2 ∧
    (number [0xE8, 0x01] : Int) = ((number [0xF4, 0x01] : Int) - number [0x0C, 0x00]) % 256 ^ 2 := by
  obtain ⟨hadd, hsub, -⟩ := chains_are_arithmetic default [0xF4, 0x01] [0x0C, 0x00] rfl (by decide)
  exact ⟨by decide, by decide, by decide, (hadd _ _ rfl).2.1, (hsub _ _ rfl).2.1⟩

end Registers

end Famicom
