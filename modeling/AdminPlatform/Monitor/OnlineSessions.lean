import AdminPlatform.Auth.SessionLifetime
import AdminPlatform.Foundation.Query

namespace AdminPlatform.Monitor.OnlineSessions

open Model.Schema Model.Service Foundation.Relational Foundation.Transaction Foundation.Query
open Auth.TokenInvariant

structure OnlineSession where
  sessionId : ℕ
  userId : ℕ
  username : String
  loginTime : ℕ
  lastActiveTime : ℕ
  expiresAt : ℕ
  deriving DecidableEq, Repr

def active (now : ℕ) (r : RefreshToken) : Bool := r.revokedAt.isNone && decide (now < r.expiresAt)

def activeFamilies (db : Db) (now : ℕ) : List ℕ :=
  ((db.select .refreshTokens fun _ r ↦ active now r).map fun x ↦ x.2.familyId).dedup

/-- The tokens of the active families, revoked and expired ones included, with their users' names. -/
def joined (db : Db) (now : ℕ) : List (RefreshToken × String) :=
  (db.select .refreshTokens fun _ r ↦ decide (r.familyId ∈ activeFamilies db now)).filterMap fun x ↦
    (db.rows .users x.2.userId).map fun (u : User) ↦ (x.2, u.username)

def lastActive (r : RefreshToken) : ℕ := r.lastUsedAt.getD r.issuedAt

def _activeSessions (db : Db) (now : ℕ) : List OnlineSession :=
  (grouped (fun x ↦ (x.1.familyId, x.1.userId, x.2)) (joined db now)).map fun g ↦ {
    sessionId := g.1.1
    userId := g.1.2.1
    username := g.1.2.2
    loginTime := minimum (fun x ↦ x.1.issuedAt) g.2
    lastActiveTime := maximum (fun x ↦ lastActive x.1) g.2
    expiresAt := maximum (fun x ↦ x.1.expiresAt) g.2 }

def ordered (db : Db) (now : ℕ) : List OnlineSession :=
  (_activeSessions db now).mergeSort fun a b ↦
    decide (b.lastActiveTime < a.lastActiveTime) ||
      decide (a.lastActiveTime = b.lastActiveTime) && decide (b.sessionId ≤ a.sessionId)

def listOnlineSessions (db : Db) (now n size : ℕ) : List OnlineSession := page n size (ordered db now)

def countOnlineSessions (db : Db) (now : ℕ) : ℕ := (activeFamilies db now).length

variable {db : Db} {now f : ℕ} {e : OnlineSession}

theorem mem_activeFamilies : f ∈ activeFamilies db now ↔ ∃ i, ∃ r : RefreshToken,
    db.rows .refreshTokens i = some r ∧ active now r = true ∧ r.familyId = f := by
  simp only [activeFamilies, List.mem_dedup, List.mem_map, Prod.exists, mem_select, and_assoc]

theorem mem_joined {r : RefreshToken} {name : String} : (r, name) ∈ joined db now ↔
    ∃ i, ∃ u : User, db.rows .refreshTokens i = some r ∧ r.familyId ∈ activeFamilies db now ∧
      db.rows .users r.userId = some u ∧ u.username = name := by
  simp only [joined, List.mem_filterMap, Prod.exists, mem_select, decide_eq_true_eq,
    Option.map_eq_some_iff, Prod.mk.injEq]
  constructor
  · rintro ⟨i, r, ⟨hr, hf⟩, u, hu, rfl, rfl⟩
    exact ⟨i, u, hr, hf, hu, rfl⟩
  · rintro ⟨i, u, hr, hf, hu, rfl⟩
    exact ⟨i, r, ⟨hr, hf⟩, u, hu, rfl, rfl⟩

theorem ordered_perm (db : Db) (now : ℕ) : (ordered db now).Perm (_activeSessions db now) :=
  List.mergeSort_perm _ _

theorem mem_ordered : e ∈ ordered db now ↔ e ∈ _activeSessions db now :=
  (ordered_perm db now).mem_iff

end AdminPlatform.Monitor.OnlineSessions
