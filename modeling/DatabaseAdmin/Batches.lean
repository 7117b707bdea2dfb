import DatabaseAdmin.Transactions

/-! A list of statements run in one transaction, each with the number of rows it must touch. The
server answers as it likes; the first failure or wrong count ends the run. -/
namespace DatabaseAdmin.Batches
open Transactions Connection

universe u

inductive Reply (δ : Type u) where
  | done (affected : Option Nat) (contents : δ)
  | failed (contents : δ)
  | rolledBack

-- `unheard` is a commit whose acknowledgement is lost.
inductive CommitReply where
  | done | refused | unheard

variable {σ : Type} {δ ν : Type u} {ε : Type}

structure Backend (σ : Type) (δ : Type u) where
  begins : Bool
  exec : Nat → σ → δ → Reply δ
  commit : CommitReply

structure Progress (σ : Type) (δ ν : Type u) (ε α : Type) where
  connection : Connection δ ν
  executed : List (σ × Nat)
  result : Except ε α

structure Check (σ ε : Type) where
  expected : σ → Nat
  failure : ε
  mismatch : σ → Nat → ε

def Progress.after (s : σ) (count : Nat) (p : Progress σ δ ν ε Nat) : Progress σ δ ν ε Nat :=
  { p with executed := (s, count) :: p.executed }

def runStatements (exec : Nat → σ → δ → Reply δ) (check : Check σ ε) :
    Nat → Nat → List σ → Connection δ ν → Progress σ δ ν ε Nat
  | _, applied, [], c => ⟨c, [], .ok applied⟩
  | i, applied, s :: rest, c => match exec i s c.seen with
    | .rolledBack => ⟨c.discard, [], .error check.failure⟩
    | .failed d => ⟨c.write d, [], .error check.failure⟩
    | .done affected d =>
        let count := affected.getD 0
        if count ≠ check.expected s then ⟨c.write d, [(s, count)], .error (check.mismatch s count)⟩
        else (runStatements exec check (i + 1) (applied + count) rest (c.write d)).after s count

-- The catch of every path is a rollback; one that fails has lost the connection, and the
-- transaction with it.
def runBatch (begun : Option (Connection δ ν)) (c : Connection δ ν) (backend : Backend σ δ)
    (check : Check σ ε) (statements : List σ) : Progress σ δ ν ε Nat :=
  match begun with
  | none => ⟨c.discard, [], .error check.failure⟩
  | some begun =>
      let ran := runStatements backend.exec check 0 0 statements begun
      match ran.result, backend.commit with
      | .error e, _ => { ran with connection := ran.connection.discard, result := .error e }
      | .ok applied, .done => { ran with connection := ran.connection.keep, result := .ok applied }
      | .ok _, .refused => { ran with connection := ran.connection.discard, result := .error check.failure }
      | .ok _, .unheard => { ran with connection := ran.connection.keep, result := .error check.failure }

inductive Executes (exec : Nat → σ → δ → Reply δ) (expected : σ → Nat) : Nat → List σ → δ → δ → Prop where
  | nil (i d) : Executes exec expected i [] d d
  | cons {i s rest affected d e f} (ran : exec i s d = .done affected e)
      (counted : affected.getD 0 = expected s) (tail : Executes exec expected (i + 1) rest e f) :
      Executes exec expected i (s :: rest) d f

variable {exec : Nat → σ → δ → Reply δ} {check : Check σ ε} {c : Connection δ ν} {statements : List σ}

def InTransaction (c : Connection δ ν) (k : δ) : Prop := c.committed = k ∧ c.transaction.isSome = true

theorem writeInside {k : δ} (inside : InTransaction c k) (d : δ) : InTransaction (c.write d) k := by
  obtain ⟨committed, transaction⟩ := c
  cases transaction with
  | none => simp [InTransaction] at inside
  | some t => exact inside

theorem runCommitsNothing {i applied : Nat} {k : δ} (inside : InTransaction c k) :
    (runStatements exec check i applied statements c).connection.committed = k := by
  induction statements generalizing i applied c with
  | nil => exact inside.1
  | cons s rest ih =>
    simp only [runStatements]
    split
    · exact inside.1
    · exact (writeInside inside _).1
    · split
      · exact (writeInside inside _).1
      · exact ih (writeInside inside _)

theorem runWhole {i applied n : Nat} (ok : (runStatements exec check i applied statements c).result = .ok n) :
    (runStatements exec check i applied statements c).executed = statements.map (fun s => (s, check.expected s)) ∧
    Executes exec check.expected i statements c.seen
      (runStatements exec check i applied statements c).connection.seen := by
  induction statements generalizing i applied c with
  | nil => exact ⟨rfl, .nil _ _⟩
  | cons s rest ih =>
    simp only [runStatements] at ok ⊢
    split at ok
    · simp at ok
    · simp at ok
    · rename_i affected d ran
      split at ok
      · simp at ok
      · rename_i counted
        rw [not_not] at counted
        obtain ⟨executed, ran'⟩ := ih ok
        rw [writeSeen] at ran'
        simp only [counted, ne_eq, not_true_eq_false, if_false, Progress.after, List.map_cons]
        rw [counted] at executed ran'
        exact ⟨by rw [executed], .cons ran counted ran'⟩

theorem batchWhole {begun : Connection δ ν} {k : δ} (inside : InTransaction begun k) (c : Connection δ ν)
    (backend : Backend σ δ) (check : Check σ ε) (statements : List σ) :
    let p := runBatch (some begun) c backend check statements
    let whole := p.executed = statements.map (fun s => (s, check.expected s)) ∧
      Executes backend.exec check.expected 0 statements begun.seen p.connection.committed
    (whole ∨ p.connection.committed = k) ∧ ((∃ n, p.result = .ok n) → whole) := by
  have nothing : (runStatements backend.exec check 0 0 statements begun).connection.committed = k :=
    runCommitsNothing inside
  simp only [runBatch]
  cases result : (runStatements backend.exec check 0 0 statements begun).result with
  | error e => exact ⟨Or.inr nothing, nofun⟩
  | ok applied =>
    have whole := runWhole result
    cases backend.commit with
    | done => exact ⟨Or.inl whole, fun _ => whole⟩
    | refused => exact ⟨Or.inr nothing, nofun⟩
    | unheard => exact ⟨Or.inl whole, fun _ => whole⟩

end DatabaseAdmin.Batches
