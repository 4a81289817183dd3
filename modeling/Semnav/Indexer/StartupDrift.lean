import Semnav.ForStd.Outcome
import Semnav.Indexer.Reconcile

/-!
# The startup-drift pass

`reconcile_startup_drift` (`src/indexer/reconcile.rs`): every uri that a walk finds or that the
graph knows gets an attempt, and up to five more when its server was not there or its symbols
looked suspicious.  An attempt is a run of the task of `Semnav.Indexer.Reconcile`, with others
possibly at work between its commands.
-/

namespace Semnav.Indexer

open Semnav.ForStd Semnav.Graph Semnav.Adapters

/-- The commands of the pass. -/
inductive DriftCmd : Type → Type where
  /-- `discover_files`. -/
  | discoverFiles : DriftCmd (List String)
  | knownUris : DriftCmd (List String)
  /-- The elements of a `HashSet`, in the order of its iterator. -/
  | iterate (set : List String) : DriftCmd (List String)
  | waitUntilQueryIdle : DriftCmd Unit
  /-- `sleep(SUSPICIOUS_RETRY_DELAY)`. -/
  | sleep : DriftCmd Unit
  /-- `reconcile_uri_for_startup_drift`; the pass goes on after an error. -/
  | attempt (uri : String) : DriftCmd (Except TaskError DriftAttempt)

/-- The pass (or a part of it) with result `α`. -/
abbrev DriftM (α : Type) := Prog DriftCmd α

/-- `SUSPICIOUS_RETRY_ATTEMPTS`. -/
def suspiciousRetryAttempts : Nat := 5

/-- `drift_candidates`: the union of the walk and the known uris, without duplicates. -/
def driftCandidates (discovered known : List String) : DriftM (List String) :=
  Prog.perform (.iterate (discovered ++ known).dedup)

/-- One attempt for every uri; the failures are counted, the suspicious uris kept. -/
def checkUris : List String → Nat → List String → DriftM (Nat × List String)
  | [], failures, suspicious => pure (failures, suspicious)
  | uri :: rest, failures, suspicious => do
    Prog.perform .waitUntilQueryIdle
    match ← Prog.perform (.attempt uri) with
    | .ok .committed => checkUris rest failures suspicious
    | .ok .suspiciousEmpty => checkUris rest failures (suspicious ++ [uri])
    | .ok .lspUnavailable => checkUris rest failures (suspicious ++ [uri])
    | .error _ => checkUris rest (failures + 1) suspicious

/-- Up to `n` further attempts for a suspicious uri: is it resolved, and how many have failed? -/
def retryUri (uri : String) : Nat → DriftM (Bool × Nat)
  | 0 => pure (false, 0)
  | n + 1 => do
    Prog.perform .sleep
    Prog.perform .waitUntilQueryIdle
    match ← Prog.perform (.attempt uri) with
    | .ok .committed => pure (true, 0)
    | .ok .suspiciousEmpty => retryUri uri n
    | .ok .lspUnavailable => retryUri uri n
    | .error _ => pure (true, 1)

/-- The retries; the uris that stay unresolved are skipped. -/
def retryUris : List String → Nat → List String → DriftM (Nat × List String)
  | [], failures, skipped => pure (failures, skipped)
  | uri :: rest, failures, skipped => do
    let (resolved, failed) ← retryUri uri suspiciousRetryAttempts
    retryUris rest (failures + failed) (if resolved then skipped else skipped ++ [uri])

/-- What the pass reports at its end. -/
structure DriftReport where
  checked : Nat
  failures : Nat
  skipped : Nat

/-- `reconcile_startup_drift`. -/
def reconcileStartupDrift : DriftM DriftReport := do
  let discovered ← Prog.perform .discoverFiles
  let known ← Prog.perform .knownUris
  let uris ← driftCandidates discovered known
  let (failures, suspicious) ← checkUris uris 0 []
  let (failures, skipped) ← retryUris suspicious failures []
  pure ⟨uris.length, failures, skipped.length⟩

/-! ## What the commands do -/

/-- What the attempts share, and the commands of theirs that were answered so far. -/
structure DriftState where
  world : TaskWorld
  history : List (Exchange TaskCmd)

/-- The exchange of a command that was answered. -/
def TaskCmd.answered {β : Type} (c : TaskCmd β) : Except TaskError β → List (Exchange TaskCmd)
  | .ok b => [⟨c, b⟩]
  | .error _ => []

/-- A command of an attempt, after a step of the others. -/
def TaskCmd.May (H : Hasher) (S : TaskServer) (others : TaskWorld → TaskWorld → Prop) :
    Effects TaskCmd DriftState TaskError := fun _ c s r s' =>
  ∃ w, others s.world w ∧ c.handle H S w = (r, s'.world) ∧ s'.history = s.history ++ c.answered r

/-- A command of the pass, after a step of the others.  A walk finds existing files. -/
def DriftCmd.May (env : TaskEnv) (S : TaskServer) (others : TaskWorld → TaskWorld → Prop) :
    Effects DriftCmd DriftState TaskError
  | _, .discoverFiles, s, r, s' => others s.world s'.world ∧ s'.history = s.history ∧
      ∀ uris, r = .ok uris → ∀ uri ∈ uris, s'.world.files uri ≠ none
  | _, .knownUris, s, r, s' => others s.world s'.world ∧ s'.history = s.history ∧
      r = .ok s'.world.db.knownUris
  | _, .iterate set, s, r, s' => s' = s ∧ ∃ order : List String, r = .ok order ∧ order.Perm set
  | _, .waitUntilQueryIdle, s, r, s' => others s.world s'.world ∧ s'.history = s.history ∧
      r = .ok ()
  | _, .sleep, s, r, s' => others s.world s'.world ∧ s'.history = s.history ∧ r = .ok ()
  | _, .attempt uri, s, r, s' => ∃ result, r = .ok result ∧
      Prog.Outcome (TaskCmd.May env.hasher S others) (env.reconcileUriForStartupDrift uri) s
        result s'

/-- A pass that ended without an error. -/
abbrev PassRan (env : TaskEnv) (S : TaskServer) (others : TaskWorld → TaskWorld → Prop)
    (s : DriftState) (report : DriftReport) (s' : DriftState) : Prop :=
  Prog.Outcome (DriftCmd.May env S others) reconcileStartupDrift s (.ok report) s'

end Semnav.Indexer
