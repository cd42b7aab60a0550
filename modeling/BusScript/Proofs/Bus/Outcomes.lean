import BusScript.Bus.Simulated
import BusScript.Proofs.Execution.Calls

/-!
# What buses leave alone

None of the simulated buses changes what the script said about an entry, and neither does the board.
So the entries of a history have the operations of the slots that they were carried out in.
-/

namespace BusScript

theorem HighZ.fillsOutcomes : Driver.FillsOutcomes HighZ := fun _ _ entry _ =>
  .flag .warn _ entry

theorem I2c.fillsOutcomes : Driver.FillsOutcomes I2c := by
  intro capability next entry bus
  have timed_out {noted : Instruction} (kept : entry.KeepsSource noted) :
      entry.KeepsSource (bus.timeout noted) := by
    rw [timeout]
    split
    · exact kept.trans (.flag _ _ _)
    · exact kept
  have started : entry.KeepsSource (bus.start entry).1 := by
    apply timed_out
    split
    · exact .annotate _ _
    · split
      · exact .annotate _ _
      · exact (Instruction.KeepsSource.flag _ _ _).trans (.annotate _ _)
  cases capability with
  | write => exact .annotate _ _
  | read => exact (Instruction.KeepsSource.receive _ _).trans (.annotate _ _)
  | start | startAlt => exact started
  | stop | stopAlt => exact timed_out (.annotate _ _)
  | tickClock | clockHigh | clockLow | dataHigh | dataLow | readBit => exact .flag _ _ _

theorem Spi.fillsOutcomes : Driver.FillsOutcomes Spi := by
  intro capability next entry bus
  cases capability with
  | write => exact ⟨rfl, rfl, rfl, rfl, rfl, rfl, rfl, rfl⟩
  | read => exact .receive _ _
  | start | startAlt | stop | stopAlt => exact .annotate _ _
  | tickClock | clockHigh | clockLow | dataHigh | dataLow | readBit => exact .flag _ _ _

/-- The simulated buses fill in outcomes and leave alone what the script said. -/
theorem SimulatedBus.fillsOutcomes : Driver.FillsOutcomes SimulatedBus := by
  intro capability next entry bus
  cases bus with
  | highZ bus => exact HighZ.fillsOutcomes capability next entry bus
  | dummy bus => exact Dummy.fillsOutcomes capability next entry bus
  | i2c bus => exact I2c.fillsOutcomes capability next entry bus
  | spi bus => exact Spi.fillsOutcomes capability next entry bus

namespace Bench

variable {σ β : Type} [Driver σ] [Board β]

theorem keepsSource_dispatch (fills : Driver.FillsOutcomes σ) (next : Option Instruction)
    (entry : Instruction) (bench : Bench σ β) :
    entry.KeepsSource (bench.dispatch next entry).entry := by
  obtain ⟨service, served, entry_eq, -, -⟩ :=
    exists_service_of_dispatch fills { index := 0, repetition := 0, source := entry, next } bench []
  exact entry_eq ▸ served.keepsSource

/-- The entries of a history have the operations of the slots, up to where the history ends. -/
theorem map_op_history (fills : Driver.FillsOutcomes σ) (slots : List Slot) (bench : Bench σ β) :
    (bench.history slots).map (fun done => done.entry.op) =
      (slots.take (bench.history slots).length).map fun slot => slot.source.op := by
  induction slots generalizing bench with
  | nil => rfl
  | cons slot slots induction =>
    have op_eq := (keepsSource_dispatch fills slot.next slot.source bench).op_eq
    cases fatal : (bench.dispatch slot.next slot.source).entry.isFatal with
    | true =>
      rw [history_cons_of_isFatal slots fatal, List.map_singleton, op_eq]
      rfl
    | false =>
      rw [history_cons_of_not_isFatal slots fatal, List.map_cons, List.length_cons,
        List.take_succ_cons, List.map_cons, induction, op_eq]

end Bench

end BusScript
