/-
  kvbench formalization — the pebble adapter (`pebbleStore`).

  * `PebbleDB` is a `pebble.DB`: its contents; `db.Get` of an absent key
    fails with `ErrNotFound`, `db.Flush` writes the memtable out and leaves
    the contents as they are;
  * `PebbleStore.exec m` is one call of the adapter (a `values[i]` out of
    range in `PSet` panics, which is `none`); `Get` and `PGet` return the
    value of `db.Get` after `closer.Close()` gave its memory back, read as
    `m` says (`Lent`), and `Get`'s found flag is `v != nil`;
  * `PebbleStore.keys` is `Keys`: an iterator bounded by `[]byte("myprefix")`
    and `append(prefix, 0xFF)` in the order of `bytes.Compare`, pebble's
    default comparer (`bytesCompare`), whatever the pattern, its keys and
    values read after the deferred `iter.Close()`;
  * `pebble_diverges`: `Get` and `PGet` of an absent key return
    `ErrNotFound`, `Del` of an absent key reports `true`, and `FlushDB` keeps
    the contents, where the finite-map store does otherwise.
-/
import KvBench.LevelDB

namespace KvBench

/-- A `pebble.DB`: its contents. -/
structure PebbleDB where
  kv : KV

/-- `bytes.Compare`, the order of pebble's default comparer: byte by byte, a
    proper prefix first. -/
def bytesCompare : Bytes → Bytes → Ordering
  | [], [] => .eq
  | [], _ :: _ => .lt
  | _ :: _, [] => .gt
  | a :: as, b :: bs => if a < b then .lt else if b < a then .gt else bytesCompare as bs

namespace PebbleDB

/-- `db.Get(key)`: the value, or `ErrNotFound`. -/
def get (k : Bytes) (db : PebbleDB) : Except Error Bytes :=
  match db.kv.lookup k with
  | some v => .ok v
  | none => .error .notFound

/-- `db.Set(key, value, wo)`. -/
def set (k v : Bytes) (db : PebbleDB) : Except Error PebbleDB := .ok ⟨db.kv.insert k v⟩

/-- `db.Delete(key, wo)`: deleting an absent key succeeds. -/
def delete (k : Bytes) (db : PebbleDB) : Except Error PebbleDB := .ok ⟨db.kv.erase k⟩

/-- `wb.Commit(wo)` of a batch of `wb.Set`s. -/
def commit (batch : List (Bytes × Bytes)) (db : PebbleDB) : Except Error PebbleDB :=
  .ok ⟨KV.putAll db.kv batch⟩

/-- `db.Flush()`: the contents are unchanged. -/
def flush (db : PebbleDB) : Except Error PebbleDB := .ok db

/-- `db.NewIter(&pebble.IterOptions{LowerBound: lower, UpperBound: upper})`
    walked from `First()` while `Valid()`: the entries whose key `k` has
    `lower ≤ k < upper`, in the map's order. -/
def newIter (lower upper : Bytes) (db : PebbleDB) : List (Bytes × Bytes) :=
  (db.kv.entries.filter fun e => (bytesCompare lower e.1).isLE && (bytesCompare e.1 upper).isLT).map
    fun e => (e.1, e.2)

end PebbleDB

/-- The prefix the adapter's `Keys` scans, `[]byte("myprefix")`. -/
def myPrefix : Bytes := "myprefix".toUTF8.toList

theorem myPrefix_eq : myPrefix = [109, 121, 112, 114, 101, 102, 105, 120] := by
  simp +decide [myPrefix, ByteArray.toList, ByteArray.toList.loop]

/-- `pebbleStore`. -/
structure PebbleStore where
  db : PebbleDB
  wo : WriteOptions

namespace PebbleStore

variable (s : PebbleStore)

/-- `Set`. -/
def set (k v : Bytes) : Option Error × PebbleStore :=
  match s.db.set k v with
  | .ok db => (none, { s with db })
  | .error e => (some e, s)

/-- `Get`: any error of `db.Get`, `ErrNotFound` included, is returned; a value
    found is returned after `closer.Close()`, and found is `v != nil`. -/
def get (m : Lent) (k : Bytes) : Bytes × Bool × Option Error :=
  match s.db.get k with
  | .error e => ([], false, some e)
  | .ok v => (m.read 0 v, !m.isNil 0 v, none)

/-- `Del`: `(err == nil, err)` of `db.Delete`. -/
def del (k : Bytes) : (Bool × Option Error) × PebbleStore :=
  match s.db.delete k with
  | .ok db => ((true, none), { s with db })
  | .error e => ((false, some e), s)

/-- `PSet`: `wb.Set(k, vals[i])` for each key, then `wb.Commit`. -/
def pset (keys vals : List Bytes) : Option (Option Error × PebbleStore) := do
  let batch ← batchOf keys vals
  match s.db.commit batch with
  | .ok db => pure (none, { s with db })
  | .error e => pure (some e, s)

/-- `PGet`: for each key, the value (nil on error), kept past `closer.Close()`,
    and `err == nil`; the error returned is that of the last lookup. -/
def pget (m : Lent) (keys : List Bytes) : List Bytes × List Bool × Option Error :=
  let rs := keys.map s.db.get
  (rs.mapIdx fun i r => match r with | .ok v => m.read i v | .error _ => [],
   rs.map fun r => match r with | .ok _ => true | .error _ => false,
   match rs.getLast? with | some (.error e) => some e | _ => none)

/-- `FlushDB`: `db.Flush()`. -/
def flushDB : Option Error × PebbleStore :=
  match s.db.flush with
  | .ok db => (none, { s with db })
  | .error e => (some e, s)

/-- `Keys`: the entries from `myPrefix` up to `append(prefix, 0xFF)`, whatever
    the pattern, appended as the iterator lends them; `vals` stays nil
    without `withvals`. -/
def keys (m : Lent) (_ : Bytes) (_ : Int) (withvals : Bool) : List Bytes × List Bytes × Option Error :=
  let r := m.scan withvals (s.db.newIter myPrefix (myPrefix ++ [0xFF]))
  (r.1, r.2, none)

/-- One call other than `Keys` and `Close`. -/
def exec (m : Lent) : Op → Option (Reply × PebbleStore)
  | .set k v => let r := s.set k v; some (.err r.1, r.2)
  | .get k => let r := s.get m k; some (.get r.1 r.2.1 r.2.2, s)
  | .del k => let r := s.del k; some (.del r.1.1 r.1.2, r.2)
  | .pset ks vs => (s.pset ks vs).map fun r => (.err r.1, r.2)
  | .pget ks => let r := s.pget m ks; some (.pget r.1 r.2.1 r.2.2, s)
  | .flushDB => let r := s.flushDB; some (.err r.1, r.2)
  | .keys _ _ _ | .close => none

end PebbleStore

/-- The empty pebble store. -/
def PebbleStore.empty : PebbleStore := ⟨⟨∅⟩, ⟨false⟩⟩

/-- On the empty store, however slices read, `Get([1])` returns `ErrNotFound`
    where the finite-map store returns `(nil, false, nil)`; likewise the error
    of `PGet([[1]])`. `Del([1])` reports `true`, and after `Set([1], [2])` a
    `FlushDB` leaves `[1]` stored where the finite-map store is empty. -/
theorem pebble_diverges (m : Lent) :
    PebbleStore.empty.exec m (.get [1]) = some (.get [] false (some .notFound), PebbleStore.empty) ∧
    (refStore.exec (.get [1]) ∅).1 = .get [] false none ∧
    (PebbleStore.empty.exec m (.pget [[1]])).map (·.1) = some (.pget [[]] [false] (some .notFound)) ∧
    (refStore.exec (.pget [[1]]) ∅).1 = .pget [[]] [false] none ∧
    (PebbleStore.empty.exec m (.del [1])).map (·.1) = some (.del true none) ∧
    (refStore.exec (.del [1]) ∅).1 = .del false none ∧
    ((PebbleStore.empty.set [1] [2]).2.flushDB.2.db.kv.lookup [1]).isSome = true ∧
    (refStore.exec .flushDB (refStore.set [1] [2] ∅).2).2.lookup [1] = none := by
  refine ⟨rfl, rfl, rfl, rfl, rfl, rfl, by decide, rfl⟩

end KvBench
