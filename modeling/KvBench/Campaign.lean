/-
  kvbench formalization — the save file across the runs of `test.sh`.

  `test.sh` runs the command line once per store, one run after the other,
  all with `-save benchmarks/nofsync.csv` (then all with `fsync.csv`). A run
  that exits appends its record with `saveReorder`; a run that panics writes
  nothing.

  * `Campaign p l recs l'`: runs of `main` one after another, each saving to
    `p` and finding the file as the run before left it, from `l` to `l'`;
    `recs` holds each run's saved record, `none` for a run that panicked;
  * `campaign_ledger`: the file is `saveReorder` folded over the saved
    records, in order;
  * `campaign_rows`: from no file, it is the first saved record's header row
    followed by every saved record's value row; every saved record has the
    headers `exitHeaders`, with or without the disk column, and a value row is
    as long as the file's header row exactly when its run and the first agree
    on the disk column.
-/
import KvBench.Ledger
import KvBench.Phases

namespace KvBench

/-- Runs of `main` one after another, as `test.sh`'s loops make them: each
    with `-save p`, each finding the save file as the one before left it, and
    each ended, by exiting or by a panic. `recs` holds, per run, the record it
    saved, or `none` if it panicked. -/
inductive Campaign (p : String) : Ledger → List (Option Record) → Ledger → Prop
  | nil (l : Ledger) : Campaign p l [] l
  | run {σ : Type} {B : Store σ} {f : Flags} {st : σ} {es : List Event} {s : Sys σ}
      {l l' : Ledger} {recs : List (Option Record)} (hp : f.savePath = p)
      (h : (Sys.init f st l).run f B es = some s) (hh : s.halted = true)
      (rest : Campaign p s.ledger recs l') :
      Campaign p l ((if s.pc = .exited then some s.record else none) :: recs) l'

variable {σ : Type} {f : Flags} {B : Store σ}

/-- A run leaves the ledger it found, unless it has exited and saved. -/
theorem ledger_of_run {st : σ} {l : Ledger} {es : List Event} {s : Sys σ}
    (h : (Sys.init f st l).run f B es = some s) :
    s.ledger = if s.pc = .exited then saveReorder f.savePath s.record l else l :=
  run_preserves (P := LedgerOk f l) (fun _ _ hs h => h.step hs) es _ s h (by simp [LedgerOk, Sys.init])

/-- What runs one after another leave: the file is `saveReorder` folded over
    the saved records, each of which has the headers of a run that exits and
    a value row as long as them. -/
theorem Campaign.saved {p : String} {l₀ l : Ledger} {recs : List (Option Record)}
    (hc : Campaign p l₀ recs l) :
    l = recs.reduceOption.foldl (fun l r => saveReorder p r l) l₀ ∧
      ∀ r ∈ recs.reduceOption, (∃ disk, DiskHeaders disk ∧ r.headers = exitHeaders disk) ∧
        r.row.length = r.headers.length := by
  induction hc with
  | nil => simp
  | run hp h _ _ ih =>
    have hr : Reachable _ _ _ := ⟨_, _, _, h⟩
    rw [ledger_of_run h, hp] at ih
    split_ifs at ih ⊢ with hx
    · rw [List.reduceOption_cons_of_some, List.foldl_cons]
      refine ⟨ih.1, ?_⟩
      rintro r (_ | ⟨_, hr'⟩)
      · obtain ⟨disk, hd, hh⟩ := (reachable_staged hr).headers (by simp [hx])
        exact ⟨⟨disk, hd, by rw [hh, hx]; rfl⟩, (record_wellFormed hr).row_length⟩
      · exact ih.2 r hr'
    · rwa [List.reduceOption_cons_of_none]

/-- **Runs compose on the save file.** After runs one after another, each
    saving to `p`, the file is what `saveReorder` makes of the file found by
    the first with the saved records one after the other; the runs that
    panicked left no trace. -/
theorem campaign_ledger {p : String} {l₀ l : Ledger} {recs : List (Option Record)}
    (hc : Campaign p l₀ recs l) : l = recs.reduceOption.foldl (fun l r => saveReorder p r l) l₀ :=
  hc.saved.1

theorem foldl_saveReorder {p : String} (hp : p ≠ "") (rs : List Record) (rows : List (List String)) :
    rs.foldl (fun l r => saveReorder p r l) (some rows) = some (rows ++ rs.map Record.row) := by
  induction rs generalizing rows with
  | nil => simp
  | cons r rs ih =>
    rw [List.foldl_cons, show saveReorder p r (some rows) = some (rows ++ [r.row]) by simp [saveReorder, hp],
      ih]
    simp

/-- Two runs' rows line up exactly when both or neither have the disk column. -/
theorem exitHeaders_length_iff {d d' : List String} (hd : DiskHeaders d) (hd' : DiskHeaders d') :
    (exitHeaders d').length = (exitHeaders d).length ↔
      ("DiskUsage(MiB)" ∈ exitHeaders d' ↔ "DiskUsage(MiB)" ∈ exitHeaders d) := by
  rcases hd with rfl | rfl <;> rcases hd' with rfl | rfl <;> decide

/-- **The save file of `test.sh`.** After runs one after another from no save
    file, each saving to `p`, with `r` the first record saved and `rs` the
    others: the file is `r`'s header row followed by the value rows of `r` and
    `rs`, in order; every one of these records has the headers `exitHeaders`,
    with or without the disk column; and a record's value row is as long as
    the file's header row exactly when both or neither have the disk column. -/
theorem campaign_rows {p : String} {recs : List (Option Record)} {l : Ledger} {r : Record}
    {rs : List Record} (hc : Campaign p none recs l) (hp : p ≠ "") (hrs : recs.reduceOption = r :: rs) :
    l = some (r.headers :: (r :: rs).map Record.row) ∧
      ∀ r' ∈ r :: rs, (∃ disk, DiskHeaders disk ∧ r'.headers = exitHeaders disk) ∧
        (r'.row.length = r.headers.length ↔
          ("DiskUsage(MiB)" ∈ r'.headers ↔ "DiskUsage(MiB)" ∈ r.headers)) := by
  have hrec := hc.saved.2
  rw [hrs] at hrec
  refine ⟨?_, fun r' hr' => ⟨(hrec r' hr').1, ?_⟩⟩
  · rw [hc.saved.1, hrs, List.foldl_cons]
    simpa [saveReorder, hp] using foldl_saveReorder hp rs [r.headers, r.row]
  · obtain ⟨⟨d', hd', hh'⟩, hlen⟩ := hrec r' hr'
    obtain ⟨⟨d, hd, hh⟩, -⟩ := hrec r (List.mem_cons_self _ _)
    rw [hlen, hh', hh]
    exact exitHeaders_length_iff hd hd'

/-! ## Two runs on one file -/

/-- `oneWorkerRun disk` from a fresh map store and ledger `l`. -/
def oneWorkerFrom (disk : Option Int) (l : Ledger) : Sys KV :=
  ((Sys.init oneWorkerFlags ∅ l).run oneWorkerFlags refStore (oneWorkerRun disk)).getD
    (Sys.init oneWorkerFlags ∅ l)

/-- A run whose store's path is on disk, from no save file. -/
def firstBench : Sys KV := oneWorkerFrom (some 5000000) none

/-- Then a run whose store's path is not on disk, on the same file. -/
def secondBench : Sys KV := oneWorkerFrom none firstBench.ledger

theorem two_runs_campaign :
    Campaign "bench.csv" none [some firstBench.record, some secondBench.record] secondBench.ledger := by
  have r₁ : (Sys.init oneWorkerFlags ∅ none).run oneWorkerFlags refStore (oneWorkerRun (some 5000000)) =
      some firstBench := rfl
  have r₂ : (Sys.init oneWorkerFlags ∅ firstBench.ledger).run oneWorkerFlags refStore (oneWorkerRun none) =
      some secondBench := rfl
  have h₁ : firstBench.pc = .exited := by decide
  have h₂ : secondBench.pc = .exited := by decide
  have hc := Campaign.run rfl r₁ (by rw [Sys.halted, h₁]; rfl)
    (Campaign.run rfl r₂ (by rw [Sys.halted, h₂]; rfl) (Campaign.nil secondBench.ledger))
  rwa [if_pos h₁, if_pos h₂] at hc

theorem two_runs_ledger :
    Campaign "bench.csv" none [some firstBench.record, some secondBench.record] secondBench.ledger ∧
      secondBench.ledger = [some firstBench.record, some secondBench.record].reduceOption.foldl
        (fun l r => saveReorder "bench.csv" r l) none :=
  ⟨two_runs_campaign, campaign_ledger two_runs_campaign⟩

/-- Two runs on `bench.csv`, the first with the disk column and the second without. -/
theorem two_runs_rows :
    Campaign "bench.csv" none [some firstBench.record, some secondBench.record] secondBench.ledger ∧
      secondBench.ledger =
        some (firstBench.record.headers :: [firstBench.record, secondBench.record].map Record.row) ∧
      (secondBench.record.row.length = firstBench.record.headers.length ↔
        ("DiskUsage(MiB)" ∈ secondBench.record.headers ↔ "DiskUsage(MiB)" ∈ firstBench.record.headers)) :=
  have h := campaign_rows two_runs_campaign (by decide) rfl
  ⟨two_runs_campaign, h.1, (h.2 _ (by simp)).2⟩

end KvBench
