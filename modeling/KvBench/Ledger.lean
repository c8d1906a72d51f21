/-
  kvbench formalization — the record of a run and the ledger `saveReorder`
  appends it to.

  * `record_wellFormed`: every phase appends as many headers as values, so
    the record of every reachable state has one header more than values;
  * `ledger_of_exited`: a run leaves the ledger as it found it until
    `saveReorder`, which writes the record; on a new ledger file that is a
    header row and a value row of the same length (`fresh_ledger_rows`);
  * `ledger_rows_shift`: two runs saving to `bench.csv` one after the
    other, the first with its store's path on disk and the second without:
    `showDiskUsage` appends nothing to the second record, whose value row
    is one field shorter than the header row.
-/
import KvBench.Steps

namespace KvBench

variable {σ : Type} {f : Flags} {B : Store σ}

/-- **Aligned records.** In every reachable state the record holds one header
    more than values: `"name"`, whose value is the record's name. -/
theorem record_wellFormed {s : Sys σ} (hr : Reachable f B s) : s.record.WellFormed := by
  refine @Reachable.induction σ f B (fun s => s.record.WellFormed)
    (fun _ _ => Record.wellFormed_init _) (fun s s' hs h => ?_) _ hr
  cases hs with
  | bulkDone | mem | disk | measure => exact h.add _
  | probe => dsimp only; split <;> first | exact h.add _ | exact h
  | start => dsimp only; split <;> exact h
  | _ => exact h

/-- The ledger of a run: as found until the run has saved, then what
    `saveReorder` makes of it with the record. -/
def LedgerOk (f : Flags) (l₀ : Ledger) (s : Sys σ) : Prop :=
  s.ledger = if s.pc = .exited then saveReorder f.savePath s.record l₀ else l₀

theorem LedgerOk.step {l₀ : Ledger} {s s' : Sys σ} (hs : Step f B s s') (h : LedgerOk f l₀ s) :
    LedgerOk f l₀ s' := by
  have hne : s.pc ≠ .exited := fun he => by simpa [Sys.halted, he] using hs.not_halted
  rw [LedgerOk, if_neg hne] at h
  cases hs with
  | save => simp [LedgerOk, h]
  | probe | wait => simp only [LedgerOk]; split_ifs <;> simp_all
  | measure => rename_i k _ _ _ _ _; cases k.next <;> simp_all [LedgerOk]
  | start => dsimp only; split <;> simp_all [LedgerOk]
  | _ => rw [LedgerOk, if_neg (c := _ = Pc.exited)] <;> first | exact h | exact hne | simp

/-- **Saving.** A run from ledger `l₀` that has exited leaves the ledger
    `saveReorder` makes of `l₀` with the run's record. -/
theorem ledger_of_exited {st₀ : σ} {l₀ : Ledger} {es : List Event} {s : Sys σ}
    (h : (Sys.init f st₀ l₀).run f B es = some s) (hpc : s.pc = .exited) :
    s.ledger = saveReorder f.savePath s.record l₀ := by
  have := @run_preserves σ f B (LedgerOk f l₀) (fun _ _ hs h => h.step hs) es _ s h
    (by simp [LedgerOk, Sys.init])
  rwa [LedgerOk, if_pos hpc] at this

/-- A run that saves to a new ledger file writes a header row and a value row
    of the same length. -/
theorem fresh_ledger_rows {st₀ : σ} {es : List Event} {s : Sys σ}
    (h : (Sys.init f st₀ none).run f B es = some s) (hpc : s.pc = .exited) (hp : f.savePath ≠ "") :
    s.ledger = some [s.record.headers, s.record.row] ∧ s.record.row.length = s.record.headers.length := by
  refine ⟨by simp [ledger_of_exited h hpc, saveReorder, hp], ?_⟩
  exact (record_wellFormed ⟨st₀, none, es, h⟩).row_length

/-! ## Two runs on one ledger -/

/-- `oneWorkerRun` from a given ledger. -/
def oneWorkerLedger (disk : Option Int) (l : Ledger) : Option Ledger :=
  ((Sys.init oneWorkerFlags ∅ l).run oneWorkerFlags refStore (oneWorkerRun disk)).map (·.ledger)

/-- A first run whose store's path exists writes an 11-field header and an
    11-field row; a second run whose path does not exist appends a 10-field
    row: its fifth field is `Keys op/s` under the header `DiskUsage(MiB)`. -/
theorem ledger_rows_shift :
    ((oneWorkerLedger (some 5000000) none).bind fun l => oneWorkerLedger none l).map
        (·.map (·.map List.length)) = some (some [11, 11, 10]) ∧
      ((oneWorkerLedger (some 5000000) none).bind fun l => oneWorkerLedger none l).map
        (·.map (·.map (·.get? 4))) =
        some (some [some "DiskUsage(MiB)", some "4", some "1000000"]) := by
  constructor <;> rfl

end KvBench
