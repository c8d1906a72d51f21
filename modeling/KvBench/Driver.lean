/-
  kvbench formalization — a run of `main` as a concurrent system.

  A run is a sequence of `Event`s, each one step of one task: the driver
  (`main` and the phase functions it calls), a worker of the running
  time-bounded phase, the writer goroutine of `testGetSet`, or the
  environment (time passing, a context's timer firing). `step` is the state
  after an event, `none` when that task cannot take that step now; `run`
  steps through a list of events.

  * `Sys` holds the backend's state, the driver's program counter `pc`, the
    running phase's workers, `counts` slice, WaitGroup counter and context,
    the writer with `ch` and `setCount`, the `Record`, the ledger file, and
    the `log` of every phase start, store call and `counts` write in the order
    they happen;
  * `main`'s phases come in its order: `testBatchWriteFixCount` (one driver
    step: no other task exists yet), `showMemUsage`, `showDiskUsage`,
    `testKeys`, `testSet`, `testGet`, `testGetSet`, `testDelete`, then
    `saveReorder` and the deferred `store.Close()`;
  * the backend `B` is any `Store`; the events carry the draws of
    `math/rand` and the values read from the runtime and the file system.
-/
import KvBench.BulkLoad
import KvBench.Record
import KvBench.Worker

namespace KvBench

/-- The flags of `main` after `flag.Parse()`: `-d` (in nanoseconds), `-c`,
    `-set`, `-size`, `-fsync`, `-s`, `-save`; the numbers are 64-bit. -/
structure Flags where
  duration : Int
  c : Int
  setCount : Int
  size : Int
  fsync : Bool
  s : String
  savePath : String
  isInt : ∀ x ∈ [duration, c, setCount, size], -2 ^ 63 ≤ x ∧ x < 2 ^ 63

theorem Flags.c_lt (f : Flags) : f.c < 2 ^ 63 := (f.isInt f.c (by simp)).2

/-- `uint64(*c)`, the stride of the workers (`*c ≥ 0` wherever a worker runs). -/
def Flags.stride (f : Flags) : UInt64 := UInt64.ofNat f.c.toNat

/-- The package-level `data = make([]byte, *size)`. Package variables are
    initialized before `main` calls `flag.Parse()`, so `*size` is still the
    flag's default, 256. -/
def data : Bytes := List.replicate 256 0

/-- The run's name: `-s` without `/memory`, then `/memory` if it was there,
    then `/fsync` or `/nofsync`. -/
def runName (f : Flags) : String :=
  let memory := f.s.endsWith "/memory"
  (if memory then f.s.dropRight "/memory".length ++ "/memory" else f.s) ++
    (if f.fsync then "/fsync" else "/nofsync")

/-- The time-bounded phases, in the order `main` runs them. -/
inductive Kind where
  | keys
  | set
  | get
  | getSet
  | del
  deriving DecidableEq, Repr

/-- The phase `main` runs after `k`. -/
def Kind.next : Kind → Option Kind
  | .keys => some .set
  | .set => some .get
  | .get => some .getSet
  | .getSet => some .del
  | .del => none

/-- The store call a worker of phase `k` makes at index `i`. -/
def Kind.op : Kind → Draw → UInt64 → Op
  | .keys, d, i => .keys (genKeyPrefix d i) 0 true
  | .set, d, i => .set (genKey d.lead i) data
  | .get, d, i => .get (genKey d.lead i)
  | .getSet, d, i => .get (genKey d.lead i)
  | .del, d, i => .del (genKey d.lead i)

/-- Whether a reply sends a worker back to its start index: a miss in
    `testGet`, an error in `testKeys`. -/
def Kind.resets : Kind → Reply → Bool
  | .get, .get _ ok _ => !ok
  | .keys, .keys _ _ e => e.isSome
  | _, _ => false

/-- Where the writer of `testGetSet` is: at its `select`, in `default` about
    to `Set`, about to `setCount++; i++`, or returned. -/
inductive WrPc where
  | select
  | call
  | count
  | returned
  deriving DecidableEq, Repr

/-- The writer goroutine of `testGetSet`. -/
structure Writer where
  i : UInt64
  pc : WrPc
  deriving DecidableEq, Repr

/-- The tasks that call the store. -/
inductive Task where
  | driver
  | worker (k : Kind) (j : Nat)
  | writer
  deriving DecidableEq, Repr

/-- What the log records: the driver starting phase `k`; a store call by a
    task, with the index its key was generated from (`0` for the driver's
    calls) and the reply; worker `j` of phase `k` writing `counts[x]`. -/
inductive Entry where
  | begin (k : Kind)
  | call (t : Task) (i : UInt64) (op : Op) (r : Reply)
  | slot (k : Kind) (j : Nat) (x : Nat)
  deriving DecidableEq, Repr

/-- The driver's program counter. -/
inductive Pc where
  | bulk
  | bulkDone
  | mem
  | disk
  | probe
  /-- `wg.Add(*c)`, [`ch`, `setCount`, the writer,] the context, `counts` -/
  | start (k : Kind)
  /-- `start := time.Now()` -/
  | clock (k : Kind)
  /-- the loop starting the workers, at `j` -/
  | spawn (k : Kind) (j : Nat)
  /-- `wg.Wait()` -/
  | wait (k : Kind)
  /-- `close(ch)` -/
  | closeCh
  /-- the elapsed time, `n`, the printed line and the record's columns -/
  | measure (k : Kind)
  | save
  | exited
  | panicked
  deriving DecidableEq, Repr

/-- The state of a run. -/
structure Sys (σ : Type) where
  pc : Pc
  store : σ
  now : Nat
  start : Nat
  phase : Kind
  deadline : Int
  ctxDone : Bool
  workers : List Worker
  counts : List Int
  wg : Int
  writer : Option Writer
  chClosed : Bool
  setCount : UInt64
  record : Record
  ledger : Ledger
  log : List Entry

/-- One step of a run. -/
inductive Event where
  /-- `δ` nanoseconds pass -/
  | elapse (δ : Nat)
  /-- the running context's timer closes `ctx.Done()` -/
  | fire
  /-- worker `j` of the running phase steps, drawing `d` if it calls the store -/
  | worker (j : Nat) (d : Draw)
  /-- the writer steps, drawing `d` if it calls the store -/
  | writer (d : Draw)
  /-- the driver runs the bulk load with these random pages -/
  | bulk (draws : Nat → PageDraws)
  /-- the driver reads `m.Alloc` and `m.HeapInuse` -/
  | mem (alloc heapInuse : Nat)
  /-- the driver stats the store's path: its size, `none` if it does not exist -/
  | disk (size : Option Int)
  /-- the driver makes the first scan of `testKeys`, drawing `d` -/
  | probe (d : Draw)
  /-- any other step of the driver -/
  | driver

/-- `n += count` over the `counts` slice, in `int`. -/
def sumCounts (counts : List Int) : Int := counts.foldl (fun n x => goInt (n + x)) 0

/-- Whether a reply is `ErrNotSupported` from `Keys`. -/
def Reply.notSupported : Reply → Bool
  | .keys _ _ (some .notSupported) => true
  | _ => false

/-- The first scan of `testKeys`: `store.Keys(genKeyPrefix(0), 0, true)`. -/
def probeOp (d : Draw) : Op := .keys (genKeyPrefix d 0) 0 true

namespace Sys

variable {σ : Type} (f : Flags) (B : Store σ)

/-- The state `main` starts the phases in: the backend opened with state `st`,
    the ledger file as found, the record holding the header `"name"`. -/
def init (st : σ) (ledger : Ledger) : Sys σ where
  pc := .bulk
  store := st
  now := 0
  start := 0
  phase := .keys
  deadline := 0
  ctxDone := true
  workers := []
  counts := []
  wg := 0
  writer := none
  chClosed := false
  setCount := 0
  record := Record.init (runName f)
  ledger := ledger
  log := []

/-- A step of worker `j`: at the `select`, `counts[index] = count; wg.Done()`
    if `ctx.Done()` is closed, where `wg.Done()` panics if the counter is `0`
    (the write before it is never read); else into `default`. An iteration
    takes a nanosecond at least, and the timer closes `ctx.Done()` at the
    deadline, so no iteration begins once the clock has reached it. In
    `default`, the store call of the phase and the end of the iteration. -/
def workerStep (j : Nat) (d : Draw) (s : Sys σ) : Option (Sys σ) := do
  let w ← s.workers[j]?
  match w.pc with
  | .select =>
    if s.ctxDone then
      if s.wg = 0 then pure { s with pc := .panicked } else
      pure { s with workers := s.workers.set j { w with pc := .done },
                    counts := s.counts.set w.index.toNat w.count, wg := s.wg - 1,
                    log := s.log ++ [.slot s.phase j w.index.toNat] }
    else if s.deadline ≤ s.now then none
    else pure { s with now := s.now + 1, workers := s.workers.set j { w with pc := .call } }
  | .call =>
    let op := s.phase.op d w.i
    let r := B.exec op s.store
    pure { s with store := r.2, workers := s.workers.set j (w.advance f.stride (s.phase.resets r.1)),
                  log := s.log ++ [.call (.worker s.phase j) w.i op r.1] }
  | .done => none

/-- A step of the writer: at the `select`, return if `ch` is closed, else into
    `default`; there `store.Set(genKey(i), data)`, then `setCount++; i++`. -/
def writerStep (d : Draw) (s : Sys σ) : Option (Sys σ) := do
  let w ← s.writer
  match w.pc with
  | .select => pure { s with writer := some { w with pc := if s.chClosed then .returned else .call } }
  | .call =>
    let op := Op.set (genKey d.lead w.i) data
    let r := B.exec op s.store
    pure { s with store := r.2, writer := some { w with pc := .count },
                  log := s.log ++ [.call .writer w.i op r.1] }
  | .count => pure { s with writer := some ⟨w.i + 1, .select⟩, setCount := s.setCount + 1 }
  | .returned => none

/-- The running context's timer fires once its deadline has passed. -/
def fire (s : Sys σ) : Option (Sys σ) :=
  if !s.ctxDone ∧ s.deadline ≤ s.now then some { s with ctxDone := true } else none

/-- `testBatchWriteFixCount`: its `PSet` calls, or a panic. -/
def bulkStep (draws : Nat → PageDraws) (s : Sys σ) : Option (Sys σ) :=
  if s.pc ≠ .bulk then none else
  match testBatchWriteFixCount B f.size draws f.setCount s.store with
  | none => some { s with pc := .panicked }
  | some (calls, _, st) =>
    some { s with store := st, pc := .bulkDone,
                  log := s.log ++ calls.map (fun c => .call .driver 0 (.pset c.1 c.2) (.err none)) }

/-- `testKeys`' first scan: `-1` and on to `testSet` on `ErrNotSupported`. -/
def probeStep (d : Draw) (s : Sys σ) : Option (Sys σ) :=
  if s.pc ≠ .probe then none else
  let r := B.exec (probeOp d) s.store
  some { s with store := r.2, log := s.log ++ [.call .driver 0 (probeOp d) r.1],
                record := if r.1.notSupported then s.record.add [("Keys op/s", -1)] else s.record,
                pc := if r.1.notSupported then .start .set else .start .keys }

/-- The columns phase `k` appends, from `n`, the elapsed `d` and `setCount`;
    `none` if computing them panics. -/
def columns (k : Kind) (n d : Int) (setCount : UInt64) : Option (List (String × Int)) :=
  match k with
  | .keys => keysColumns false n f.c d
  | .set => opColumns "Set op/s" n f.c d
  | .get => opColumns "Get op/s" n f.c d
  | .getSet => getSetColumns setCount n f.c d
  | .del => opColumns "Del op/s" n f.c d

/-- The driver's other steps. `wg.Add(*c)` adds the low 32 bits of `*c` to
    the WaitGroup's `int32` counter, `0` until then, and panics if it is then
    negative; `make([]int, *c)` panics on a negative `*c`. When `wg.Wait()`
    has returned with workers still in their loop, which only a counter
    short of `*c` allows (`*c ≥ 2^32`), each of them panics at its
    `wg.Done()`, the counter being `0`: the run ends as the driver measures. -/
def driverStep (s : Sys σ) : Option (Sys σ) :=
  match s.pc with
  | .bulkDone => some { s with record := s.record.add (batchColumns (s.now - s.start)), pc := .mem }
  | .start k =>
    if f.c < 0 ∨ 2 ^ 31 ≤ f.c % 2 ^ 32 then some { s with pc := .panicked } else
    let s := if k = .getSet then { s with chClosed := false, setCount := 0, writer := some ⟨0, .select⟩ }
      else s
    some { s with pc := .clock k, phase := k, wg := f.c % 2 ^ 32, workers := [],
                  counts := List.replicate f.c.toNat 0, deadline := s.now + f.duration,
                  ctxDone := decide (f.duration ≤ 0), log := s.log ++ [.begin k] }
  | .clock k => some { s with start := s.now, pc := .spawn k 0 }
  | .spawn k j =>
    if (j : Int) < f.c then some { s with workers := s.workers ++ [Worker.new j], pc := .spawn k (j + 1) }
    else some { s with pc := .wait k }
  | .wait k => if s.wg = 0 then some { s with pc := if k = .getSet then .closeCh else .measure k } else none
  | .closeCh => some { s with chClosed := true, pc := .measure .getSet }
  | .measure k =>
    match columns f k (sumCounts s.counts) (s.now - s.start : Nat) s.setCount with
    | none => some { s with pc := .panicked }
    | some cols =>
      if s.workers.all (·.pc == .done) then
        some { s with record := s.record.add cols, ctxDone := true,
                      pc := (match k.next with | some k' => .start k' | none => .save) }
      else some { s with pc := .panicked }
  | .save =>
    let r := B.exec .close s.store
    some { s with ledger := saveReorder f.savePath s.record s.ledger, store := r.2,
                  log := s.log ++ [.call .driver 0 .close r.1], pc := .exited }
  | _ => none

/-- Whether the process has ended: no task steps any more. -/
def halted (s : Sys σ) : Bool := s.pc = .exited || s.pc = .panicked

/-- The state after an event. -/
def step (s : Sys σ) (e : Event) : Option (Sys σ) :=
  if s.halted then none else
  match e with
  | .elapse δ => some { s with now := s.now + δ }
  | .fire => s.fire
  | .worker j d => s.workerStep f B j d
  | .writer d => s.writerStep B d
  | .bulk draws => s.bulkStep f B draws
  | .mem alloc heapInuse =>
    if s.pc ≠ .mem then none else some { s with record := s.record.add (memColumns alloc heapInuse), pc := .disk }
  | .disk size =>
    if s.pc ≠ .disk then none else some { s with record := s.record.add (diskColumns size), pc := .probe }
  | .probe d => s.probeStep B d
  | .driver => s.driverStep f B

/-- The state after a list of events. -/
def run (s : Sys σ) : List Event → Option (Sys σ)
  | [] => some s
  | e :: es => (s.step f B e).bind fun s' => run s' es

end Sys

/-- The states a run of `main` can reach, from any backend state and ledger. -/
def Reachable {σ : Type} (f : Flags) (B : Store σ) (s : Sys σ) : Prop :=
  ∃ st l es, Sys.run f B (Sys.init f st l) es = some s

end KvBench
