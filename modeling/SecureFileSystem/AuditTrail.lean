import SecureFileSystem.Guarantees

/-!
The audit trail: what the log of committed transactions says about every
response sent and every file row, in every reachable state.
-/

namespace SecureFileSystem.AuditTrail

open Base Database Session LifeCycle Program Transition RelyGuarantee Routers Service Handlers
  Guarantees

/-- The transaction that made a file available carries its `file_uploaded` row. -/
def PublishLogged (shared : Shared) (file : File) : Prop :=
  ∃ thread writes event, (thread, writes) ∈ shared.log ∧ .setAvailable file.id ∈ writes ∧
    .audit event ∈ writes ∧ event.eventType = .file_uploaded ∧ event.fileId = some file.id

/-- The transaction that deleted a file carries its `file_deleted` row. -/
def DeleteLogged (shared : Shared) (file : File) : Prop :=
  ∃ thread writes event deletedAt linkVersion, (thread, writes) ∈ shared.log ∧
    .setDeleted file.id deletedAt linkVersion ∈ writes ∧
    .audit event ∈ writes ∧ event.eventType = .file_deleted ∧ event.fileId = some file.id

/-- Nothing that a state shows, or that a response sent from it hands out, is
unaudited. -/
structure FullyAudited (platform : Platform) (config : ServiceConfig) : Prop where
  downloads : ∀ thread request response after,
    Step (service platform) config (.finish thread (.download request) (.response response)) after →
      Served platform thread request response config.shared
  links : ∀ thread request response after,
    Step (service platform) config (.finish thread (.createLink request) (.response response))
      after → Issued thread request response config.shared
  transactions : ∀ entry ∈ config.shared.log, Audited entry.2
  published : ∀ file ∈ config.shared.db.files, file.status ≠ .uploading →
    PublishLogged config.shared file
  revoked : ∀ file ∈ config.shared.db.files, file.status = .deleted →
    DeleteLogged config.shared file

theorem fully_audited (platform : Platform) (clock : Nat) (labels : List ServiceLabel)
    (config : ServiceConfig) (run : Run (Step (service platform)) (deployed clock) labels config) :
    FullyAudited platform config := by
  have wf := (service_safe run).inv
  refine ⟨?_, ?_, wf.audited, ?_, ?_⟩
  · exact fun thread request response after finished => (service_step run finished).2
  · exact fun thread request response after finished => (service_step run finished).2
  · intro file present standing
    obtain ⟨thread, event, logged, kind, named⟩ := wf.published file present standing
    exact ⟨thread, _, event, logged, by simp [Transaction.writes], by simp [Transaction.writes],
      kind, named⟩
  · intro file present gone
    obtain ⟨thread, deletedAt, linkVersion, event, logged, kind, named⟩ :=
      wf.revoked file present gone
    exact ⟨thread, _, event, deletedAt, linkVersion, logged, by simp [Transaction.writes],
      by simp [Transaction.writes], kind, named⟩

def downloadedOnce : List ServiceMove :=
  smallUploaded ++ [.start (.api 1) (.createLink smallLink)] ++ prompts (.api 1) 3 ++
  [.finish (.api 1), .start (.api 2) (.download smallDownload)] ++ prompts (.api 2) 4 ++
  delivers [2] ++ prompts (.api 2) 2

def fileSent (config : ServiceConfig) : Bool :=
  match config.threads (.api 2) with
  | .running (.download _) (.ret (.response response)) =>
      decide (response = ⟨200, .content [7] ['f']⟩)
  | _ => false

theorem fully_audited_downloaded : ∃ labels config request after,
    Run (Step (service plain)) (deployed 0) labels config ∧
    Step (service plain) config (.finish (.api 2) (.download request)
      (.response ⟨200, .content [7] ['f']⟩)) after ∧
    FullyAudited plain config ∧
    Served plain (.api 2) request ⟨200, .content [7] ['f']⟩ config.shared := by
  obtain ⟨labels, config, run, passed⟩ := drive_reaches (service plain) (deployed 0) downloadedOnce
    (fun _ config => fileSent config) (by decide +kernel)
  have audited := fully_audited plain 0 labels config run
  unfold fileSent at passed
  split at passed
  · rename_i request response at_ret
    obtain rfl := of_decide_eq_true passed
    have finished : Step (service plain) config _ _ := Step.finish at_ret
    exact ⟨labels, config, request, _, run, finished, audited,
      audited.downloads _ _ _ _ finished⟩
  · cases passed

end SecureFileSystem.AuditTrail
