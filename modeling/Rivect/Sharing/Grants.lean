import Mathlib.Algebra.Ring.Nat
import Rivect.Lib.Fallible
import Rivect.Lib.Rows

/-! # The rows of the sharing grants

`sharing_grants`, and the transitions of `src/state.rs` over it: a row opens once and closes once.
-/

namespace Rivect.Sharing

open Lib

inductive GrantState where
  | opened
  | revoked
  | expired
  | failed
deriving DecidableEq

structure SharingGrant where
  grantId : String
  taskId : String
  tokenDigest : String
  expiresAt : ℕ
  state : GrantState
deriving DecidableEq

inductive StoreRefusal where
  | missingTask (taskId : String)
  | missingGrant (grantId : String)
  | grantClosed (grantId : String) (state : GrantState)
  | expiryOutOfRange (value : ℕ)
  | storage
deriving DecidableEq

/-- The session that owns a task, as the `tasks` table says. -/
abbrev Owners := String → Option String

/-- The column holds a non-negative `i64`. -/
def sharingExpiry (value : ℕ) : Except StoreRefusal ℕ :=
  if value < 2 ^ 63 then .ok value else .error (.expiryOutOfRange value)

abbrev Rows := List SharingGrant

def sharingGrant (rows : Rows) (grantId : String) : Option SharingGrant :=
  rowAt SharingGrant.grantId rows grantId

/-- The guard of every terminal `UPDATE`: only the open row of the grant is matched. -/
def matched (grantId : String) (guard : SharingGrant → Bool) (row : SharingGrant) : Bool :=
  row.grantId = grantId && row.state = .opened && guard row

def updateGrant (rows : Rows) (grantId : String) (guard : SharingGrant → Bool)
    (state : GrantState) : Rows :=
  rows.map fun row => if matched grantId guard row then { row with state := state } else row

/-- The grant's id is the key of the table. -/
def openSharingGrant (owners : Owners) (rows : Rows) (grantId sessionId taskId tokenDigest : String)
    (expiresAt : ℕ) : Except StoreRefusal Rows := do
  let storedExpiry ← sharingExpiry expiresAt
  require (owners taskId = some sessionId) (.missingTask taskId)
  require (∀ row ∈ rows, row.grantId ≠ grantId) .storage
  return rows ++ [⟨grantId, taskId, tokenDigest, storedExpiry, .opened⟩]

/-- The one body of the terminal transitions. -/
def transitionSharingGrant (owners : Owners) (rows : Rows) (grantId : String)
    (sessionId : Option String) (requireTransition : Bool) (guard : SharingGrant → Bool)
    (state : GrantState) : Except StoreRefusal (Rows × SharingGrant) := do
  let owner := (sharingGrant rows grantId).bind fun row => owners row.taskId
  require (sessionId = none ∨ owner = sessionId) (.missingGrant grantId)
  let rows' := updateGrant rows grantId guard state
  let row ← found (sharingGrant rows' grantId) (.missingGrant grantId)
  require (requireTransition = true → rows.any (matched grantId guard) = true)
    (.grantClosed grantId row.state)
  return (rows', row)

def revokeSharingGrant (owners : Owners) (rows : Rows) (grantId sessionId : String) :
    Except StoreRefusal (Rows × SharingGrant) :=
  transitionSharingGrant owners rows grantId (some sessionId) false (fun _ => true) .revoked

def expireSharingGrant (owners : Owners) (rows : Rows) (grantId : String) (now : ℕ) :
    Except StoreRefusal (Rows × SharingGrant) := do
  let storedNow ← sharingExpiry now
  transitionSharingGrant owners rows grantId none true (fun row => row.expiresAt ≤ storedNow)
    .expired

def failSharingGrant (owners : Owners) (rows : Rows) (grantId : String) :
    Except StoreRefusal (Rows × SharingGrant) :=
  transitionSharingGrant owners rows grantId none false (fun _ => true) .failed

/-- Runtime open: no listener survived the process. -/
def failOpenSharingGrants (rows : Rows) : Rows :=
  rows.map fun row => if row.state = .opened then { row with state := .failed } else row

end Rivect.Sharing
