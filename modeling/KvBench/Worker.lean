/-
  kvbench formalization — the worker loop of the time-bounded phases
  (`testKeys`, `testSet`, `testGet`, `testGetSet`, `testDelete`).

  Worker `j` of `c` starts at `index = uint64(j)`; each iteration calls the
  store at `i`, then sets `i = index` if the call sends it back (a miss in
  `testGet`, an error in `testKeys`) and adds `uint64(*c)`.

  * `indices c index i rs`: the indices passed to `genKey` in the iterations
    whose resets are `rs`; `after` the index left for the next one;
  * `indices_mod`: every such index is `index` modulo `c` provided no
    addition wrapped around `2^64` — always when `c` is a power of two, and
    for any `c` while the worker has run at most `2^64 / c` iterations;
  * `indices_disjoint`: under the same provisos two distinct workers never
    pass the same index; `indices_replicate` gives the indices of a worker
    that never resets, `(i + t * c) mod 2^64`, which for `c = 3` reach
    another worker's start index.
-/
import KvBench.Key

namespace KvBench

/-- Where a worker goroutine is: at its `select`, in its `default` branch
    about to call the store, or finished (`counts[index] = count; wg.Done()`). -/
inductive WPc where
  | select
  | call
  | done
  deriving DecidableEq, Repr

/-- A worker goroutine of a time-bounded phase. -/
structure Worker where
  index : UInt64
  i : UInt64
  count : Int
  pc : WPc
  deriving DecidableEq, Repr

/-- A freshly started worker `j`. -/
def Worker.new (j : Nat) : Worker := ⟨UInt64.ofNat j, UInt64.ofNat j, 0, .select⟩

/-- The end of an iteration: `i = index` on a reset, `i += uint64(*c)`,
    `count++`, back to the `select`. -/
def Worker.advance (c : UInt64) (reset : Bool) (w : Worker) : Worker :=
  { w with i := (if reset then w.index else w.i) + c, count := goInt (w.count + 1), pc := .select }

/-! ## Index sequences -/

/-- The indices passed to `genKey` from `i` on, over iterations resetting as `rs`. -/
def indices (c index : UInt64) : UInt64 → List Bool → List UInt64
  | _, [] => []
  | i, r :: rs => i :: indices c index ((if r then index else i) + c) rs

/-- The index after those iterations. -/
def after (c index : UInt64) : UInt64 → List Bool → UInt64
  | i, [] => i
  | i, r :: rs => after c index ((if r then index else i) + c) rs

section
variable (c index : UInt64)

@[simp] theorem indices_nil (i : UInt64) : indices c index i [] = [] := rfl

@[simp] theorem after_nil (i : UInt64) : after c index i [] = i := rfl

theorem indices_append_single (i : UInt64) (rs : List Bool) (r : Bool) :
    indices c index i (rs ++ [r]) = indices c index i rs ++ [after c index i rs] := by
  induction rs generalizing i <;> simp [indices, after, *]

theorem after_append_single (i : UInt64) (rs : List Bool) (r : Bool) :
    after c index i (rs ++ [r]) = (if r then index else after c index i rs) + c := by
  induction rs generalizing i <;> simp [after, *]

/-- A worker that never resets passes `i, i + c, i + 2c, …` modulo `2^64`. -/
theorem indices_replicate (i : UInt64) (n : Nat) :
    indices c index i (List.replicate n false) =
      (List.range n).map fun t => UInt64.ofNat ((i.toNat + t * c.toNat) % 2 ^ 64) := by
  induction n generalizing i with
  | zero => rfl
  | succ n ih =>
    rw [List.replicate_succ, indices, ih, List.range_succ_eq_map, List.map_cons, List.map_map]
    congr 1
    · apply UInt64.toNat.inj
      simp [UInt64.toNat_ofNat', Nat.mod_eq_of_lt i.toNat_lt_size]
    · apply List.map_congr_left
      intro t _
      simp only [Function.comp, Bool.false_eq_true, ↓reduceIte, UInt64.toNat_add', Nat.mod_add_mod,
        Nat.succ_mul]
      congr 2
      omega

end

/-! ## Strides -/

theorem toNat_add_stride {i : UInt64} {j m c : Nat} (hi : i.toNat = j + m * c) (hc : c < 2 ^ 64)
    (hb : j + (m + 1) * c < 2 ^ 64) : (i + UInt64.ofNat c).toNat = j + (m + 1) * c := by
  rw [Nat.succ_mul] at *
  rw [UInt64.toNat_add', UInt64.toNat_ofNat', Nat.mod_eq_of_lt hc, hi, Nat.mod_eq_of_lt (by omega)]
  omega

section
variable {c j : Nat}

/-- While no index addition wraps, every index of worker `j` is `j + m * c`,
    hence `j` modulo `c`. -/
theorem indices_no_wrap (hc : c < 2 ^ 64) (hj : j < c) :
    ∀ (rs : List Bool) (i : UInt64) (m : Nat), i.toNat = j + m * c → (m + rs.length) * c ≤ 2 ^ 64 →
      ∀ x ∈ indices (UInt64.ofNat c) (UInt64.ofNat j) i rs, x.toNat % c = j
  | [], _, _, _, _ => by simp
  | r :: rs, i, m, hi, hb => by
    intro x hx
    rcases List.mem_cons.1 hx with rfl | hx
    · rw [hi, Nat.add_mul_mod_self_right, Nat.mod_eq_of_lt hj]
    rcases rs with _ | ⟨r', rs⟩
    · simp at hx
    have h₂ : (m + 1 + 1) * c ≤ 2 ^ 64 :=
      le_trans (Nat.mul_le_mul_right _ (by simp only [List.length_cons]; omega)) hb
    have hj' : (UInt64.ofNat j).toNat = j + 0 * c := by
      rw [UInt64.toNat_ofNat', Nat.mod_eq_of_lt (by omega)]; simp
    cases r
    · refine indices_no_wrap hc hj _ _ (m + 1) (toNat_add_stride hi hc ?_) ?_ x hx
      · rw [Nat.succ_mul] at h₂; omega
      · simpa [Nat.add_assoc, Nat.add_comm 1] using hb
    · refine indices_no_wrap hc hj _ _ (0 + 1) (toNat_add_stride hj' hc ?_) ?_ x hx
      · rw [Nat.succ_mul (m + 1)] at h₂
        have := Nat.mul_le_mul_right c (show 0 + 1 ≤ m + 1 by omega)
        omega
      · refine le_trans (Nat.mul_le_mul_right _ ?_) hb
        simp only [List.length_cons]; omega

/-- When `c` divides `2^64`, wrapping keeps the residue: every index of worker
    `j` is `j` modulo `c`. -/
theorem indices_pow_two (hj : j < c) (hc : c ∣ 2 ^ 64) :
    ∀ (rs : List Bool) (i : UInt64), i.toNat % c = j →
      ∀ x ∈ indices (UInt64.ofNat c) (UInt64.ofNat j) i rs, x.toNat % c = j
  | [], _, _ => by simp
  | r :: rs, i, hi => by
    intro x hx
    rcases List.mem_cons.1 hx with rfl | hx
    · exact hi
    · refine indices_pow_two hj hc rs _ ?_ x hx
      rw [UInt64.toNat_add', Nat.mod_mod_of_dvd _ hc, UInt64.toNat_ofNat', Nat.add_mod,
        Nat.mod_mod_of_dvd _ hc]
      cases r
      · simp [hi, Nat.mod_eq_of_lt hj]
      · rw [if_pos rfl, UInt64.toNat_ofNat', Nat.mod_mod_of_dvd _ hc, Nat.mod_self, Nat.add_zero,
          Nat.mod_mod, Nat.mod_eq_of_lt hj]

/-- A worker's indices stay in its residue class modulo `c` when `c` is a
    power of two, or while it has run at most `2^64 / c` iterations. -/
theorem indices_mod (hc : c < 2 ^ 64) (hj : j < c) (rs : List Bool)
    (h : (∃ a, c = 2 ^ a) ∨ rs.length * c ≤ 2 ^ 64) :
    ∀ x ∈ indices (UInt64.ofNat c) (UInt64.ofNat j) (UInt64.ofNat j) rs, x.toNat % c = j := by
  have hj' : (UInt64.ofNat j).toNat = j := by rw [UInt64.toNat_ofNat', Nat.mod_eq_of_lt (by omega)]
  rcases h with ⟨a, rfl⟩ | h
  · have ha : a ≤ 64 := by
      by_contra h
      exact absurd (lt_of_le_of_lt (Nat.pow_le_pow_right (by decide) (show 65 ≤ a by omega)) hc)
        (by decide)
    exact indices_pow_two hj (Nat.pow_dvd_pow 2 ha) _ _ (by rw [hj', Nat.mod_eq_of_lt hj])
  · exact indices_no_wrap hc hj _ _ 0 (by simp [hj']) (by simpa using h)

/-- **Disjoint strides.** Two distinct workers `j₁ ≠ j₂` of `c` never pass the
    same index, whatever their resets, when `c` is a power of two or while each
    has run at most `2^64 / c` iterations. -/
theorem indices_disjoint {j₁ j₂ : Nat} (hc : c < 2 ^ 64) (h₁ : j₁ < c) (h₂ : j₂ < c) (hne : j₁ ≠ j₂)
    (rs₁ rs₂ : List Bool)
    (h : (∃ a, c = 2 ^ a) ∨ (rs₁.length * c ≤ 2 ^ 64 ∧ rs₂.length * c ≤ 2 ^ 64)) :
    ∀ x ∈ indices (UInt64.ofNat c) (UInt64.ofNat j₁) (UInt64.ofNat j₁) rs₁,
      x ∉ indices (UInt64.ofNat c) (UInt64.ofNat j₂) (UInt64.ofNat j₂) rs₂ := by
  intro x hx₁ hx₂
  have e₁ := indices_mod hc h₁ rs₁ (h.imp id (·.1)) x hx₁
  have e₂ := indices_mod hc h₂ rs₂ (h.imp id (·.2)) x hx₂
  exact hne (e₁.symm.trans e₂)

end

end KvBench
