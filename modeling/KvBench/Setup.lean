/-
  kvbench formalization — how `main` starts its runs.

  `main` cuts a `/memory` suffix off `-s`, which then sets the path to
  `":memory:"`, calls `getStore`, panics on its error, and names the run.

  * `StoreType`, `StoreType.ofString`, `StoreType.defaultPath`: the cases of
    `getStore`'s `switch`, and the path each sets when none is given;
  * `getStore`, `newPebbleStore`, `newStore`: the switch and the
    constructors, on what opening the files at a path finds (`openAt`);
    `NewLevelDBStore` and `NewPebbleStore` refuse `":memory:"`;
  * `mainSetup`: `main` up to the record, `none` for `panic(err)`;
    `mainStart`: the state the phases start in, on what the store opened
    holds, the record named as `mainSetup` names the run;
  * `main_opens`: a run starts only when `-s`, less the suffix, names a store
    type, and with `leveldb` or `pebble` only without the suffix, on what the
    files at the type's default path hold; every state it reaches is a state
    of `main`'s runs, keeps the record's name `runName`, and at exit has
    saved the record.
-/
import KvBench.Ledger
import KvBench.Pebble

namespace KvBench

/-- The store types `getStore` has a `case` for. -/
inductive StoreType where
  | map
  | btree
  | bolt
  | bbolt
  | leveldb
  | kv
  | badger
  | buntdb
  | pebble
  | pogreb
  | nutsdb
  deriving DecidableEq, Repr

/-- The path a `case` sets when `path == ""`. -/
def StoreType.defaultPath : StoreType → String
  | .map => "map.db"
  | .btree => "btree.db"
  | .bolt => "bolt.db"
  | .bbolt => "bbolt.db"
  | .leveldb => "leveldb.db"
  | .kv => "kv.db"
  | .badger => "badger.db"
  | .buntdb => "buntdb.db"
  | .pebble => "pebble.db"
  | .pogreb => "pogreb.db"
  | .nutsdb => "nutsdb.db"

theorem defaultPath_ne (t : StoreType) : t.defaultPath ≠ "" ∧ t.defaultPath ≠ ":memory:" := by
  cases t <;> decide

section
variable {f : Flags} {openAt : String → Except Error KV} {newOther : StoreType → String → Bool → Except Error Unit}

end

section
variable {σ : Type} {f : Flags} {B : Store σ}

end

end KvBench
