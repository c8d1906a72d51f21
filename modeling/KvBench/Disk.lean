/-
  kvbench formalization — `showDiskUsage` and `GetDirSize`.

  `showDiskUsage` calls `os.Stat` on the store's path and sizes a directory
  with `GetDirSize`: a `filepath.Walk` whose callback adds `info.Size()` of
  every path that is not a directory to an `int64` and returns the error it
  is handed. The walk hands the callback a directory, then its entries in
  sorted order; a `nil` info with the error for an entry whose `Lstat`
  fails, which the callback dereferences; and the error of `readDirNames`
  for a directory whose names cannot be read, where the walk stops.

  * `FsPath`: what `os.Lstat` and `readDirNames` find under the path;
  * `walk`, `getDirSize`, `showDiskUsage`: the code, `none` for a panic;
  * `Visit`, `FsPath.visits`, `scan`: what the walk meets, in order, and the
    callback's running sum over it;
  * `getDirSize_scans`: `GetDirSize` is that running sum, so it is the total
    of the sizes of the files when every path can be read.
-/
import KvBench.Record

namespace KvBench

/-- What `os.Lstat` (`os.Stat` at the top) and `readDirNames` find at a path. -/
inductive FsPath where
  /-- the call fails; `notExist` when `os.IsNotExist` holds of its error -/
  | gone (notExist : Bool)
  /-- a path that is not a directory, and its `Size()` -/
  | file (size : Int)
  /-- a directory whose names `readDirNames` cannot read -/
  | unreadable
  /-- a directory and its entries, in the sorted order `readDirNames` returns -/
  | dir (entries : List FsPath)
  deriving Repr

mutual
/-- `walk(path, info, walkFn)` with `GetDirSize`'s callback, from `size`: the
    new `size`, and whether the walk returns an error; `none` for the panic of
    `info.IsDir()` on a `nil` info. -/
def walk (size : Int) : FsPath → Option (Int × Bool)
  | .gone _ => none
  | .file n => some (goInt (size + n), false)
  | .unreadable => some (size, true)
  | .dir entries => walkEntries size entries

/-- The loop of `walk` over a directory's entries: on to the next entry
    while the last one returned no error. -/
def walkEntries (size : Int) : List FsPath → Option (Int × Bool)
  | [] => some (size, false)
  | p :: ps =>
    match walk size p with
    | none => none
    | some (size', true) => some (size', true)
    | some (size', false) => walkEntries size' ps
end

/-- `GetDirSize(path)`: the size and whether `filepath.Walk` returned an
    error; `none` for a panic. The walk's root is `Lstat`ed like any entry. -/
def getDirSize (p : FsPath) : Option (Int × Bool) := walk 0 p

/-- `showDiskUsage`'s `fileSize`: nothing when `os.Stat` reports that the path
    does not exist, the size of a file, `GetDirSize`'s size of a directory
    (its error dropped); `none` for a panic, e.g. `fileInfo.IsDir()` on the
    `nil` info of another `os.Stat` error. -/
def showDiskUsage : FsPath → Option (Option Int)
  | .gone true => some none
  | .gone false => none
  | .file n => some (some n)
  | p => (getDirSize p).map fun r => some r.1

/-! ## What the walk meets -/

/-- A path the walk hands the callback, as far as the callback's result goes. -/
inductive Visit where
  /-- a path that is not a directory, and its size -/
  | size (n : Int)
  /-- a directory whose names cannot be read: the walk stops with its error -/
  | stop
  /-- an entry whose `Lstat` fails: the callback panics -/
  | panic
  deriving DecidableEq, Repr

mutual
/-- The visits of the walk under a path, in order. -/
def FsPath.visits : FsPath → List Visit
  | .gone _ => [.panic]
  | .file n => [.size n]
  | .unreadable => [.stop]
  | .dir entries => visitsOf entries

/-- The visits under each entry, one entry after another. -/
def visitsOf : List FsPath → List Visit
  | [] => []
  | p :: ps => p.visits ++ visitsOf ps
end

/-- The callback's running `int64` sum over visits, from `size`: the sum and
    the error at the first `stop`, `none` at the first `panic`. -/
def scan (size : Int) : List Visit → Option (Int × Bool)
  | [] => some (size, false)
  | .size n :: vs => scan (goInt (size + n)) vs
  | .stop :: _ => some (size, true)
  | .panic :: _ => none

/-- After the visits `vs₁`, the scan goes on over `vs₂` unless it stopped. -/
def scanOn (vs : List Visit) : Option (Int × Bool) → Option (Int × Bool)
  | none => none
  | some (size, true) => some (size, true)
  | some (size, false) => scan size vs

theorem scan_append (size : Int) (vs₁ vs₂ : List Visit) :
    scan size (vs₁ ++ vs₂) = scanOn vs₂ (scan size vs₁) := by
  induction vs₁ generalizing size with
  | nil => rfl
  | cons v vs ih => cases v <;> simp [scan, scanOn, ih]

mutual
theorem walk_eq_scan (size : Int) : ∀ p : FsPath, walk size p = scan size p.visits
  | .gone _ | .file _ | .unreadable => rfl
  | .dir entries => walkEntries_eq_scan size entries

theorem walkEntries_eq_scan (size : Int) : ∀ ps : List FsPath, walkEntries size ps = scan size (visitsOf ps)
  | [] => rfl
  | p :: ps => by
    rw [walkEntries, visitsOf, scan_append, ← walk_eq_scan size p]
    rcases walk size p with _ | ⟨size', _ | _⟩
    · rfl
    · exact walkEntries_eq_scan size' ps
    · rfl
end

/-- Over sizes only, the scan ends with their `int64` total. -/
theorem scan_sizes {size : Int} (h : goInt size = size) (ns : List Int) :
    scan size (ns.map Visit.size) = some (goInt (size + ns.sum), false) := by
  induction ns generalizing size with
  | nil => simp [scan, h]
  | cons n ns ih => simp [scan, ih (goInt_goInt _), goInt_add, Int.add_assoc]

/-- **`GetDirSize` sums in walk order.** For every tree under the store's
    path, `GetDirSize` is the callback's running `int64` sum over the paths the
    walk meets: the sizes of the files up to the first entry whose `Lstat`
    fails, where it panics, or the first directory whose names cannot be
    read, where it returns the sum so far and the error. When every path can
    be `Lstat`ed and read, it is the total of the files' sizes, with no
    error. -/
theorem getDirSize_scans (p : FsPath) :
    getDirSize p = scan 0 p.visits ∧
      ∀ ns : List Int, p.visits = ns.map Visit.size → getDirSize p = some (goInt ns.sum, false) := by
  refine ⟨walk_eq_scan 0 p, fun ns h => ?_⟩
  rw [getDirSize, walk_eq_scan, h, scan_sizes goInt_zero, Int.zero_add]

example : getDirSize (.dir [.file 3, .dir [.file 4], .unreadable, .file 5]) = some (7, true) := by decide

/-- A store directory of two files, one in a subdirectory. -/
theorem getDirSize_two_files :
    (FsPath.dir [.file 3, .dir [.file 4]]).visits = [3, 4].map Visit.size ∧
      getDirSize (.dir [.file 3, .dir [.file 4]]) = some (goInt [3, 4].sum, false) :=
  ⟨rfl, (getDirSize_scans _).2 [3, 4] rfl⟩

end KvBench
