import Mathlib.Data.List.Basic
import Mathlib.Tactic

/-!
# Numbered logs

An append-only log whose entries carry numbers.  The log is complete up to `n` when the numbers
never decrease and are exactly those from one to `n`; it grows by groups of entries with the next
number.  The entries about one subject form its history when they carry the versions one, two,
three and so on at strictly increasing numbers.
-/

namespace NumberedLog

variable {α : Type*} {number version : α → ℤ} {n : ℤ} {log group : List α}

/-! ## Complete logs -/

/-- The numbers of the log do not decrease and are exactly those from one to `n`. -/
structure Complete (number : α → ℤ) (n : ℤ) (log : List α) : Prop where
  /-- The numbers do not decrease. -/
  sorted : log.Pairwise fun a b => number a ≤ number b
  /-- Exactly the numbers from one to `n` occur. -/
  numbers : ∀ k, (∃ a ∈ log, number a = k) ↔ 1 ≤ k ∧ k ≤ n

/-- The empty log is complete. -/
theorem complete_nil : Complete number 0 [] := by
  refine ⟨List.Pairwise.nil, ?_⟩
  intro k
  constructor
  · rintro ⟨a, ha, -⟩
    exact absurd ha List.not_mem_nil
  · rintro ⟨h, h'⟩
    omega

/-- No entry is numbered beyond the end of the log. -/
theorem Complete.le (h : Complete number n log) {a : α} (ha : a ∈ log) : number a ≤ n :=
  ((h.numbers (number a)).mp ⟨a, ha, rfl⟩).2

/-- Appending the entries with the numbers up to `m`, in order, completes the log up to `m`. -/
theorem Complete.extend {m : ℤ} (h : Complete number n log) (hn : 0 ≤ n) (hle : n ≤ m)
    (hsorted : group.Pairwise fun a b => number a ≤ number b)
    (hrange : ∀ a ∈ group, n < number a ∧ number a ≤ m)
    (hnumbers : ∀ k, n < k → k ≤ m → ∃ a ∈ group, number a = k) :
    Complete number m (log ++ group) := by
  constructor
  · rw [List.pairwise_append]
    refine ⟨h.sorted, hsorted, ?_⟩
    intro a ha b hb
    exact (h.le ha).trans (hrange b hb).1.le
  · intro k
    have hold := h.numbers k
    constructor
    · rintro ⟨a, ha, rfl⟩
      rcases List.mem_append.mp ha with ha | ha
      · have := hold.mp ⟨a, ha, rfl⟩
        omega
      · have := hrange a ha
        omega
    · intro hk
      by_cases hlast : k ≤ n
      · obtain ⟨a, ha, hak⟩ := hold.mpr ⟨hk.1, hlast⟩
        exact ⟨a, List.mem_append_left _ ha, hak⟩
      · obtain ⟨a, ha, hak⟩ := hnumbers k (not_le.mp hlast) hk.2
        exact ⟨a, List.mem_append_right _ ha, hak⟩

/-- Appending a group with the next number completes the log one number further. -/
theorem Complete.append (h : Complete number n log) (hn : 0 ≤ n) (hne : group ≠ [])
    (hgroup : ∀ a ∈ group, number a = n + 1) : Complete number (n + 1) (log ++ group) := by
  apply h.extend hn (by omega)
  · refine List.pairwise_of_forall_mem_list ?_
    intro a ha b hb
    rw [hgroup a ha, hgroup b hb]
  · intro a ha
    have := hgroup a ha
    omega
  · intro k hk hk'
    obtain ⟨a, ha⟩ := List.exists_mem_of_ne_nil _ hne
    refine ⟨a, ha, ?_⟩
    have := hgroup a ha
    omega

/-- What is appended to a complete log has all numbers that it is completed by. -/
theorem Complete.appended {m : ℤ} (h : Complete number n log)
    (h' : Complete number m (log ++ group)) (hn : 0 ≤ n) {k : ℤ} (hk : n < k) (hm : k ≤ m) :
    ∃ a ∈ group, number a = k := by
  obtain ⟨a, ha, hak⟩ := (h'.numbers k).mpr ⟨by omega, hm⟩
  rcases List.mem_append.mp ha with ha | ha
  · have := h.le ha
    omega
  · exact ⟨a, ha, hak⟩

/-- The groups of a log stay as they are when a group with the next number is appended. -/
theorem filter_append_old (hgroup : ∀ a ∈ group, number a = n + 1) {k : ℤ} (hk : k ≤ n) :
    (log ++ group).filter (fun a => decide (number a = k)) =
      log.filter fun a => decide (number a = k) := by
  have hnone : group.filter (fun a => decide (number a = k)) = [] := by
    rw [List.filter_eq_nil_iff]
    intro a ha
    have := hgroup a ha
    simp only [decide_eq_true_eq]
    omega
  rw [List.filter_append, hnone, List.append_nil]

/-- The appended group is the group of the next number. -/
theorem Complete.filter_append_new (h : Complete number n log)
    (hgroup : ∀ a ∈ group, number a = n + 1) :
    (log ++ group).filter (fun a => decide (number a = n + 1)) = group := by
  have hnone : log.filter (fun a => decide (number a = n + 1)) = [] := by
    rw [List.filter_eq_nil_iff]
    intro a ha
    have := h.le ha
    simp only [decide_eq_true_eq]
    omega
  have hall : group.filter (fun a => decide (number a = n + 1)) = group := by
    rw [List.filter_eq_self]
    intro a ha
    simpa using hgroup a ha
  rw [List.filter_append, hnone, hall, List.nil_append]

/-- Skipping the entries before a number leaves exactly the entries from that number on. -/
theorem dropWhile_eq_filter (h : log.Pairwise fun a b => number a ≤ number b) (k : ℤ) :
    log.dropWhile (fun a => decide (number a < k)) =
      log.filter fun a => decide (k ≤ number a) := by
  induction log with
  | nil => rfl
  | cons a log ih =>
    obtain ⟨hfirst, hrest⟩ := List.pairwise_cons.mp h
    by_cases ha : number a < k
    · rw [List.dropWhile_cons_of_pos (by simpa using ha), ih hrest,
        List.filter_cons_of_neg (by simpa using ha)]
    · rw [List.dropWhile_cons_of_neg (by simpa using ha), eq_comm, List.filter_eq_self]
      intro b hb
      have hab : number a ≤ number b := by
        rcases List.mem_cons.mp hb with rfl | hb
        · exact le_rfl
        · exact hfirst b hb
      simp only [decide_eq_true_eq]
      omega

/-! ## Histories -/

/-- The entries carry the versions from one to `n`, in order and at increasing numbers. -/
structure History (number version : α → ℤ) (n : ℤ) (log : List α) : Prop where
  /-- There is an entry for each version. -/
  length_eq : (log.length : ℤ) = n
  /-- The entry at a position carries the version of that position. -/
  versions : ∀ (k : ℕ) (a : α), log[k]? = some a → version a = k + 1
  /-- The numbers increase. -/
  increasing : log.Pairwise fun a b => number a < number b

/-- A first version alone is a history. -/
theorem history_singleton {a : α} (h : version a = 1) : History number version 1 [a] := by
  refine ⟨rfl, ?_, List.pairwise_singleton _ _⟩
  intro k b hb
  obtain ⟨rfl, rfl⟩ : k = 0 ∧ a = b := by
    cases k with
    | zero => exact ⟨rfl, by simpa using hb⟩
    | succ k => simp at hb
  simpa using h

/-- A history goes on with the next version at a later number. -/
theorem History.append (h : History number version n log) {a : α} (hversion : version a = n + 1)
    (hlater : ∀ b ∈ log, number b < number a) :
    History number version (n + 1) (log ++ [a]) := by
  refine ⟨?_, ?_, ?_⟩
  · have := h.length_eq
    rw [List.length_append, List.length_singleton]
    omega
  · intro k b hb
    by_cases hk : k < log.length
    · rw [List.getElem?_append_left hk] at hb
      exact h.versions k b hb
    · rw [List.getElem?_append_right (not_lt.mp hk)] at hb
      have hk0 : k - log.length = 0 := by
        by_contra hne
        rw [List.getElem?_eq_none (by simp; omega)] at hb
        cases hb
      rw [hk0] at hb
      obtain rfl : a = b := by simpa using hb
      have := h.length_eq
      omega
  · rw [List.pairwise_append]
    refine ⟨h.increasing, List.pairwise_singleton _ _, ?_⟩
    intro b hb c hc
    obtain rfl : c = a := by simpa using hc
    exact hlater b hb

end NumberedLog
