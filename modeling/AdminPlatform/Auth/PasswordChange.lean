import AdminPlatform.Auth.ReuseDetection

namespace AdminPlatform.Auth.PasswordChange

open Model.Schema Model.Service Foundation.Relational Foundation.Transaction
open Foundation.Interleaving RefreshService TokenInvariant TokenTransaction AccountSystem TokenFamily

variable {s : Settings} {w : Shared} {S : State Table Row LockName Storage Note Failure Unit}

/-- After a committed change of a user's password no token of a family opened on the old
password is rotated any more. -/
def OldSessionsEnd (log : List Note) : Prop := ∀ before after u x old new i f,
  log = before ++ .passwordReplaced u x old new :: after → Note.rotated i f ∈ after →
    Note.granted f u old ∉ log

theorem oldSessionsEnd_of_fresher {log : List Note} (h : log.Pairwise (Fresher log)) :
    OldSessionsEnd log := by
  intro before after u x old new i f hlog hrot hgr
  subst hlog
  have hafter := (List.pairwise_cons.1 (List.pairwise_append.1 h).2.1).1
  exact hafter _ hrot u x old new i f old rfl rfl hgr rfl

/-- Runs in which no login commits on a password that has changed meanwhile, no administrator
replaces the password of a user with a live token, and no rotation commits after its token
has expired. -/
def passwordGuard : Guard Table Row LockName Storage Note := ⟨fun _ _ ↦ True, PasswordGuard⟩

theorem password_change_ends_sessions (hw : Start w)
    (h : Reach (AccountOp.call s) .crash passwordGuard w S) : OldSessionsEnd S.world.log :=
  oldSessionsEnd_of_fresher (passwordInv_of_reach hw h).2.fresher

/-- `PasswordGuard`, computed. -/
def checkPassword (w : Shared) (notes : List Note) : Bool :=
  notes.all fun
    | .granted _ u h => !notes.contains (.loginVerified u h) ||
      (w.db.rows .users u).all fun (x : User) ↦ decide (x.passwordHash = h)
    | .passwordReplaced u .userUpdate _ _ => (w.db.scan .refreshTokens).all fun (x : ℕ × RefreshToken) ↦
      !decide (x.2.userId = u) || x.2.revokedAt.isSome || decide (x.2.expiresAt ≤ w.now)
    | .rotated i _ => (w.db.rows .refreshTokens i).all fun (r : RefreshToken) ↦
      decide (w.now < r.expiresAt)
    | _ => true

theorem passwordGuard_of_check {notes : List Note} (h : checkPassword w notes = true) :
    PasswordGuard w notes := by
  unfold checkPassword at h
  rw [List.all_eq_true] at h
  refine ⟨fun f u y hg hv x hx ↦ ?_, fun u o n hn i r hr hu ↦ ?_, fun i f hn r hr ↦ ?_⟩
  · have hc := h _ hg
    simpa [hv, hx] using hc
  · have hc := h _ hn
    simp only [List.all_eq_true] at hc
    have hd := hc (i, r) (mem_scan.2 hr)
    simpa [hu, Dead] using hd
  · have hc := h _ hn
    simpa [hr] using hc

/-- Alice logs in, an administrator gives her a new password, and the session of the old
password goes on. -/
def aliceKeepsOn : List (Label AccountOp) :=
  aliceLogsIn ++ .start (.updateUser 0 { password := some "new" } none) ::
    List.replicate 20 (.step 1) ++ .start (.refresh (some ⟨3, 4⟩)) :: List.replicate 20 (.step 2)

theorem not_oldSessionsEnd_aliceKeepsOn : ∃ S, Reach (AccountOp.call someSettings) .crash .free
    aliceOnly S ∧ ¬ OldSessionsEnd S.world.log := by
  obtain ⟨S, hS, hp⟩ := exists_reach_aliceOnly aliceKeepsOn
    (p := fun S ↦ decide (S.world.log = S.world.log.take 4 ++
      .passwordReplaced 0 .userUpdate ⟨"old", 1⟩ ⟨"new", 6⟩ :: S.world.log.drop 5) &&
      decide (Note.rotated 5 2 ∈ S.world.log.drop 5) &&
      decide (Note.granted 2 0 ⟨"old", 1⟩ ∈ S.world.log)) (by decide +kernel)
  simp only [Bool.and_eq_true, decide_eq_true_eq] at hp
  exact ⟨S, hS, fun h ↦ h _ _ _ _ _ _ _ _ hp.1.1 hp.1.2 hp.2⟩

def aliceChanges : List (Label AccountOp) :=
  aliceLogsIn ++ .start (.changePassword 0 "old" "new") :: List.replicate 20 (.step 1) ++
    .start (.refresh (some ⟨3, 4⟩)) :: List.replicate 20 (.step 2)

theorem password_change_ends_sessions_aliceChanges : ∃ S,
    Reach (AccountOp.call someSettings) .crash passwordGuard aliceOnly S ∧
    Note.passwordReplaced 0 .changePassword ⟨"old", 1⟩ ⟨"new", 6⟩ ∈ S.world.log ∧
    OldSessionsEnd S.world.log := by
  have hrun : ∃ S, Reach (AccountOp.call someSettings) .crash passwordGuard aliceOnly S ∧
      decide (Note.passwordReplaced 0 .changePassword ⟨"old", 1⟩ ⟨"new", 6⟩ ∈ S.world.log) = true :=
    exists_reach_of_follow checkPassword aliceChanges (fun _ _ ↦ trivial)
      (fun _ _ ↦ passwordGuard_of_check) (by decide +kernel)
  obtain ⟨S, hS, hp⟩ := hrun
  exact ⟨S, hS, of_decide_eq_true hp, password_change_ends_sessions start_aliceOnly hS⟩

end AdminPlatform.Auth.PasswordChange
