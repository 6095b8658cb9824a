import RecordLinkage.Fault

/-!
# Trying again

A busy store and a conflict with another writer go by, so an operation that fails for one of these
reasons is tried again, for a limited number of times. All other failures are final.
-/

namespace RecordLinkage

variable {m : Type → Type} [Monad m] {α : Type}

/-- Runs attempts from a given number on, with so many further ones left. -/
def retryFrom (op : Nat → m (Except Fault α)) (attempt : Nat) : Nat → m (Except Fault α)
  | 0 => op attempt
  | left + 1 => do
    match ← op attempt with
    | .ok a => return .ok a
    | .error f => if f.isRetryable then retryFrom op (attempt + 1) left else return .error f

/-- Runs an operation, and again up to `retries` times as long as its failure is retryable. The
operation is told the number of the attempt, from zero. -/
def retry (retries : Nat) (op : Nat → m (Except Fault α)) : m (Except Fault α) :=
  retryFrom op 0 retries

end RecordLinkage
