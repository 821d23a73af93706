/-
  Scripts: what an instruction does on the bus, said without the processor.

  A `Script` is a tree of reads and writes in which what comes after a read may depend on the byte
  that was answered.  `Script.run` carries one out on a bus, `Script.accesses` lists the accesses this
  makes.  A processor `Carries` a script if each of its ticks makes the next access of the script, it
  stays inside the instruction until the script ends, and then meets what is asked of it.

  Main statements: scripts that follow one another are carried one after the other (`Carries.bind`),
  and a processor that carries a script comes, on every bus, to where the script ends, in as many
  ticks as the script has accesses (`Carries.ticks_eq`), one access to a tick (`Carries.log_ticks`).
-/
import Famicom.Processor.Tick

namespace Famicom

/-- Reads and writes in order, with a result. -/
inductive Script (α : Type) where
  | done (result : α)
  /-- Reads a byte and goes on by it. -/
  | read (addr : UInt16) (next : UInt8 → Script α)
  /-- Writes a byte and goes on. -/
  | write (addr : UInt16) (data : UInt8) (next : Script α)

namespace Script

variable {α β γ : Type}

/-- One script after another. -/
def bind : Script α → (α → Script γ) → Script γ
  | done a, k => k a
  | read addr next, k => read addr fun v => (next v).bind k
  | write addr data next, k => write addr data (next.bind k)

instance : Monad Script where
  pure := done
  bind := bind

/-- Reads the byte at an address. -/
def fetch (addr : UInt16) : Script UInt8 := read addr done

/-- Writes a byte to an address. -/
def store (addr : UInt16) (data : UInt8) : Script Unit := write addr data (done ())

/-- Carries a script out on a bus. -/
def run [Bus β] : Script α → β → α × β
  | done a, bus => (a, bus)
  | read addr next, bus => (next (Bus.read bus addr).1).run (Bus.read bus addr).2
  | write addr data next, bus => next.run (Bus.write bus addr data)

/-- The accesses a script makes on a bus, in order. -/
def accesses [Bus β] : Script α → β → List Access
  | done _, _ => []
  | read addr next, bus =>
    ⟨.read, addr, (Bus.read bus addr).1⟩ ::
      (next (Bus.read bus addr).1).accesses (Bus.read bus addr).2
  | write addr data next, bus => ⟨.write, addr, data⟩ :: next.accesses (Bus.write bus addr data)

end Script

namespace Processor

variable {α β γ : Type}

/-- Ticks a processor and its bus a number of times. -/
def ticks [Bus β] : Nat → Processor × β → Processor × β
  | 0, s => s
  | n + 1, s => ticks n (s.1.tick s.2).2

/-- The next boundary between two instructions is reached at the `n`-th tick. -/
structure ReachesBoundary [Bus β] (p : Processor) (bus : β) (n : Nat) : Prop where
  pos : 0 < n
  inside : ∀ k, 0 < k → k < n → (ticks k (p, bus)).1.atBoundary = false
  boundary : (ticks n (p, bus)).1.atBoundary = true

/-- The processor with the cycle that is about to be made counted. -/
def counted (p : Processor) : Processor := { p with cycles := p.cycles + 1 }

/-- The processor makes the accesses of a script, one to a tick, never at a boundary before the last,
    and is then related to the result as `post` says. -/
def Carries (post : Processor → α → Prop) : Script α → Processor → Prop
  | .done a, p => post p a
  | .read addr next, p =>
    p.atBoundary = false ∧ ∃ f, p.counted.cycle = .read addr f ∧ ∀ v, Carries post (next v) (f v)
  | .write addr data next, p =>
    p.atBoundary = false ∧ ∃ q, p.counted.cycle = .write addr data q ∧ Carries post next q

theorem Carries.bind {post : Processor → α → Prop} {post' : Processor → γ → Prop}
    {k : α → Script γ} (hk : ∀ q a, post q a → Carries post' (k a) q) :
    ∀ {s : Script α} {p : Processor}, Carries post s p → Carries post' (s.bind k) p
  | .done a, p, h => hk p a h
  | .read _ _, _, ⟨hb, f, hf, hs⟩ => ⟨hb, f, hf, fun v => (hs v).bind hk⟩
  | .write _ _ _, _, ⟨hb, q, hq, hs⟩ => ⟨hb, q, hq, hs.bind hk⟩

section

variable [Bus β] {p q : Processor} {bus : β} {addr : UInt16} {data : UInt8}

theorem tick_of_read {f : UInt8 → Processor} (h : p.counted.cycle = .read addr f) :
    p.tick bus = (.read, f (Bus.read bus addr).1, (Bus.read bus addr).2) := by
  have hc : { p with cycles := p.cycles + 1 }.cycle = .read addr f := h
  unfold tick
  rw [hc]

theorem tick_of_write (h : p.counted.cycle = .write addr data q) :
    p.tick bus = (.write, q, Bus.write bus addr data) := by
  have hc : { p with cycles := p.cycles + 1 }.cycle = .write addr data q := h
  unfold tick
  rw [hc]

/-- On a bus, a processor that carries a script comes to where the script ends, and is at no boundary
    before. -/
theorem Carries.ticks_eq {post : Processor → α → Prop} :
    ∀ {s : Script α} {p : Processor}, Carries post s p → ∀ bus : β,
      (∀ k < (s.accesses bus).length, (ticks k (p, bus)).1.atBoundary = false) ∧
      post (ticks (s.accesses bus).length (p, bus)).1 (s.run bus).1 ∧
      (ticks (s.accesses bus).length (p, bus)).2 = (s.run bus).2
  | .done a, p, h, bus => ⟨fun k hk => absurd hk (Nat.not_lt_zero k), h, rfl⟩
  | .read addr next, p, ⟨hb, f, hf, hs⟩, bus => by
    -- one tick makes the first access and leaves a processor that carries the rest
    have ih := (hs (Bus.read bus addr).1).ticks_eq (Bus.read bus addr).2
    have ht : (p.tick bus).2 = (f (Bus.read bus addr).1, (Bus.read bus addr).2) := by
      rw [tick_of_read hf]
    refine ⟨?_, ?_, ?_⟩
    · intro k hk
      cases k with
      | zero => exact hb
      | succ k =>
        show (ticks k (p.tick bus).2).1.atBoundary = false
        rw [ht]
        exact ih.1 k (Nat.lt_of_succ_lt_succ hk)
    · show post (ticks _ (p.tick bus).2).1 _
      rw [ht]; exact ih.2.1
    · show (ticks _ (p.tick bus).2).2 = _
      rw [ht]; exact ih.2.2
  | .write addr data next, p, ⟨hb, q, hq, hs⟩, bus => by
    have ih := hs.ticks_eq (Bus.write bus addr data)
    have ht : (p.tick bus).2 = (q, Bus.write bus addr data) := by rw [tick_of_write hq]
    refine ⟨?_, ?_, ?_⟩
    · intro k hk
      cases k with
      | zero => exact hb
      | succ k =>
        show (ticks k (p.tick bus).2).1.atBoundary = false
        rw [ht]
        exact ih.1 k (Nat.lt_of_succ_lt_succ hk)
    · show post (ticks _ (p.tick bus).2).1 _
      rw [ht]; exact ih.2.1
    · show (ticks _ (p.tick bus).2).2 = _
      rw [ht]; exact ih.2.2

/-- Every tick adds the next access of the script to the record, and nothing else. -/
theorem Carries.log_ticks {post : Processor → α → Prop} :
    ∀ {s : Script α} {p : Processor}, Carries post s p → ∀ (bus : β) (log : List Access),
      ∀ k ≤ (s.accesses bus).length,
        (ticks k (p, (⟨bus, log⟩ : Recorded β))).2.accesses =
          ((s.accesses bus).take k).reverse ++ log
  | .done a, p, _, bus, log, k, hk => by
    have hk : k = 0 := Nat.le_zero.mp hk
    subst hk
    rfl
  | .read addr next, p, ⟨_, f, hf, hs⟩, bus, log, k, hk => by
    cases k with
    | zero => rfl
    | succ k =>
      have ih := (hs (Bus.read bus addr).1).log_ticks (Bus.read bus addr).2
        (⟨.read, addr, (Bus.read bus addr).1⟩ :: log) k (Nat.le_of_succ_le_succ hk)
      show (ticks k (p.tick (⟨bus, log⟩ : Recorded β)).2).2.accesses = _
      rw [tick_of_read hf]
      refine Eq.trans ih ?_
      simp [Script.accesses]
  | .write addr data next, p, ⟨_, q, hq, hs⟩, bus, log, k, hk => by
    cases k with
    | zero => rfl
    | succ k =>
      have ih := hs.log_ticks (Bus.write bus addr data) (⟨.write, addr, data⟩ :: log) k
        (Nat.le_of_succ_le_succ hk)
      show (ticks k (p.tick (⟨bus, log⟩ : Recorded β)).2).2.accesses = _
      rw [tick_of_write hq]
      refine Eq.trans ih ?_
      simp [Script.accesses]

end

end Processor

end Famicom
