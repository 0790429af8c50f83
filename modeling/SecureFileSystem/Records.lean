import SecureFileSystem.Guarantees
import SecureFileSystem.Requests
import SecureFileSystem.Objects

/-!
What a reachable state says of its own past: every object id on the wire has
been drawn, and the rows of every upload are those of an encoding.
-/

namespace SecureFileSystem.Records

open Base Database Fleet Session LifeCycle Program Transition Files SecureFileSystem.Configuration
  Maintenance Service Interference Stability Conduct Handlers Guarantees Wire Objects Requests

def Lawful (platform : Platform) (known : Uuid → Prop) : Op → Prop
  | .send requests => ∀ one ∈ requests, ∀ id, one.2.shard = some id → known id
  | .commit writes => Coded platform writes
  | _ => True

abbrev Abides {Out : Type} (platform : Platform) (known : Uuid → Prop) (prog : Async Out) : Prop :=
  prog.Informed (Lawful platform) learn (fun _ _ => True) known

variable {platform : Platform}

theorem conforms_abides {Out : Type} {known : Uuid → Prop} {fact : (Uuid → Prop) → Out → Prop}
    {prog : Async Out} (conforms : Conforms platform known fact prog) :
    Abides platform known prog := by
  have lawful : ∀ known request, may platform known request → Lawful platform known request := by
    intro known request allowed
    cases request with
    | send requests => exact allowed
    | commit writes => exact allowed.1
    | _ => trivial
  exact Prog.informed_mono (Prog.informed_may conforms lawful) fun _ _ _ => trivial

theorem abides_more {Out : Type} {known more : Uuid → Prop} {prog : Async Out}
    (grown : ∀ id, known id → more id) (abides : Abides platform known prog) :
    Abides platform more prog := by
  apply Prog.informed_more (fun less more => ∀ id, less id → more id) ?_ ?_ ?_ grown abides
  · intro less more request grown allowed
    cases request with
    | send requests => exact fun one member id named => grown id (allowed one member id named)
    | commit writes => exact allowed
    | _ => trivial
  · intro less more request answer grown other learned
    cases request with
    | uuid4 => exact learned.imp_right (grown other)
    | selectPlaced condition => exact learned.imp_right (grown other)
    | _ => exact grown other learned
  · exact fun _ _ _ _ _ => trivial

theorem checkNodeHealth_abides (settings : Settings) (failures : Failures) (known : Uuid → Prop) :
    Abides platform known (program platform (.checkNodeHealth settings failures)) := by
  constructor
  · trivial
  · intro nodes
    constructor
    · intro one member id named
      obtain ⟨node, -, rfl⟩ := List.mem_map.mp member
      cases named
    · intro handles
      constructor
      · trivial
      · intro replies
        constructor
        · trivial
        · intro time
          constructor
          · intro file shards same
            have nodes := Upkeep.probedAll_ofNodes settings.nodeFailureThreshold time failures
              (nodes.zip (replies.map isHealthy)) (.insertFile file)
            rw [same] at nodes
            exact (nodes List.mem_cons_self).elim
          · exact fun _ => trivial

theorem program_abides (job : Job) (known : Uuid → Prop) :
    Abides platform known (program platform job) := by
  cases job with
  | checkNodeHealth settings failures => exact checkNodeHealth_abides settings failures known
  | _ => exact conforms_abides (program_conforms known _ (by simp))

def Known (shared : Shared) (id : Uuid) : Prop := id ∈ shared.issued.map (·.2)

structure Recorded (platform : Platform) (config : ServiceConfig) : Prop where
  named : ∀ flight ∈ config.shared.flights, ∀ id, flight.request.shard = some id →
    Known config.shared id
  coded : ∀ entry ∈ config.shared.log, Coded platform entry.2
  running : ∀ thread job rest, config.threads thread = .running job rest →
    Abides platform (Known config.shared) rest

theorem known_learned {thread : Tid} {before after : Shared} {request : Op} {answer : Res request}
    (wf : WellFormed before) (life : Life thread before after)
    (done : exec thread before request answer = some after) :
    ∀ id, learn (Known before) request answer id → Known after id := by
  have still : ∀ id, Known before id → Known after id := by
    intro id known
    obtain ⟨entry, member, rfl⟩ := List.mem_map.mp known
    exact List.mem_map_of_mem (life_issued life member)
  intro id learned
  cases request with
  | uuid4 =>
      obtain ⟨-, same⟩ := Option.ite_none_right_eq_some.mp done
      cases same
      rcases learned with rfl | known
      · exact List.mem_cons_self
      · exact still id known
  | selectPlaced condition =>
      obtain ⟨order, -⟩ := Option.ite_none_right_eq_some.mp done
      rcases learned with ⟨row, member, rfl⟩ | known
      · have stored := (placed_shard (List.mem_filter.mp (order.mem_iff.mp member)).1).1
        exact still _ (wf.used_issued _ (wf.shards_used row.1 stored))
      · exact still id known
  | _ => exact still id learned

theorem recorded_step {before after : ServiceConfig} {label : ServiceLabel}
    (wf : WellFormed before.shared)
    (lives : ∀ thread request answer, label = .act thread request answer →
      Life thread before.shared after.shared)
    (taken : Step (service platform) before label after) (recorded : Recorded platform before) :
    Recorded platform after := by
  have quiet : ∀ moving status, after = before.set moving status →
      (∀ job rest, status = .running job rest → Abides platform (Known before.shared) rest) →
      Recorded platform after := by
    rintro moving status rfl abides
    refine ⟨recorded.named, recorded.coded, fun thread job rest running => ?_⟩
    rw [RelyGuarantee.threads_set] at running
    split at running
    · exact abides job rest running
    · exact recorded.running thread job rest running
  cases taken with
  | start idle may =>
      apply quiet _ _ rfl
      rintro job rest ⟨rfl, rfl⟩
      exact program_abides _ _
  | fail at_op => exact quiet _ _ rfl (by simp)
  | finish at_ret => exact quiet _ _ rfl (by simp)
  | @act moving job request next answer shared at_op done =>
      have life := lives moving request answer rfl
      have lawful := recorded.running moving job _ at_op
      -- What a job may name grows with what it is told.
      have learned := known_learned wf life done
      have still : ∀ id, Known before.shared id → Known shared id :=
        fun id known => learned id (learn_known request answer id known)
      constructor
      · intro flight member id named
        obtain ⟨index, inside, found⟩ := List.mem_iff_getElem.mp member
        -- A flight is an old one or what was just sent.
        rcases exec_flight done (List.getElem?_eq_some_iff.mpr ⟨inside, found⟩) with
          ⟨old, present, told⟩ | ⟨-, one, launched, rfl⟩
        · have same : flight.request = old.request := congrArg (·.2.2) told.sent
          rw [same] at named
          exact still id (recorded.named old (List.mem_of_getElem? present) id named)
        · cases request with
          | send requests => exact still id (lawful.1 one launched id named)
          | _ => cases launched
      · intro entry member
        change entry ∈ shared.log at member
        rw [exec_log done] at member
        rcases List.mem_append.mp member with old | new
        · exact recorded.coded entry old
        · obtain ⟨writes, committed, rfl⟩ := List.mem_map.mp new
          cases request with
          | commit writes =>
              rw [List.mem_singleton.mp committed]
              exact lawful.1
          | _ => cases committed
      · intro thread other rest running
        change (before.set moving _).threads thread = _ at running
        rw [RelyGuarantee.threads_set] at running
        split at running
        · cases running
          exact abides_more learned (lawful.2 answer)
        · exact abides_more still (recorded.running thread other rest running)
  | @env event shared done =>
      have undisturbed := environment_undisturbed event done
      have same : Known shared = Known before.shared := by
        funext id
        rw [Known, undisturbed.issued, Known]
      constructor
      · intro flight member id named
        change Known shared id
        rw [same]
        obtain ⟨index, inside, found⟩ := List.mem_iff_getElem.mp member
        obtain ⟨old, present, follows⟩ :=
          environment_flight event done (List.getElem?_eq_some_iff.mpr ⟨inside, found⟩)
        have request : flight.request = old.request := congrArg (·.2.2) follows.sent
        rw [request] at named
        exact recorded.named old (List.mem_of_getElem? present) id named
      · intro entry member
        change entry ∈ shared.log at member
        rw [undisturbed.log] at member
        exact recorded.coded entry member
      · intro thread job rest running
        change Abides platform (Known shared) rest
        rw [same]
        exact recorded.running thread job rest running

/-- Every object id on the wire of a reachable state was drawn, and every upload is coded. -/
theorem run_recorded {clock : Nat} {labels : List ServiceLabel} {config : ServiceConfig}
    (run : Run (Step (service platform)) (deployed clock) labels config) :
    Recorded platform config := by
  induction run with
  | refl => exact ⟨by simp [deployed], by simp [deployed], by simp [deployed]⟩
  | next ran taken ih =>
      apply recorded_step (service_safe ran).inv ?_ taken ih
      rintro thread request answer rfl
      exact service_step ran taken

/-! ### The constraints on file rows -/

theorem write_checked {before after : Db} {write : Write} (done : before.write write = some after)
    (all : ∀ file ∈ before.files, file.checks = true) : ∀ file ∈ after.files, file.checks = true := by
  have updated : ∀ (fileId : Uuid) (change : File → File),
      (∀ file, (change file).checks = file.checks) →
      ∀ file ∈ File.update fileId change before.files, file.checks = true := by
    intro fileId change same file member
    rcases mem_update fileId change before.files file member with old | ⟨old, present, -, rfl⟩
    · exact all file old
    · exact (same old).trans (all old present)
  cases write with
  | insertFile file =>
      obtain ⟨⟨-, checks⟩, same⟩ := Option.ite_none_right_eq_some.mp done
      cases same
      intro other member
      rcases List.mem_append.mp member with old | new
      · exact all other old
      · rw [List.mem_singleton.mp new]
        exact checks
  | insertShards shards =>
      obtain ⟨-, same⟩ := Option.ite_none_right_eq_some.mp done
      cases same
      exact all
  | setAvailable fileId =>
      obtain ⟨-, same⟩ := Option.ite_none_right_eq_some.mp done
      cases same
      exact updated fileId _ fun _ => rfl
  | setDeleted fileId deletedAt linkVersion =>
      obtain ⟨-, same⟩ := Option.ite_none_right_eq_some.mp done
      cases same
      exact updated fileId _ fun _ => rfl
  | deleteFile fileId =>
      cases done
      exact fun file member => all file (List.mem_filter.mp member).1
  | repoint old new node =>
      obtain ⟨-, same⟩ := Option.ite_none_right_eq_some.mp done
      cases same
      exact all
  | audit event =>
      obtain ⟨-, same⟩ := Option.ite_none_right_eq_some.mp done
      cases same
      exact all
  | deleteShards ids => cases done; exact all
  | setLastSeen nodeId seen => cases done; exact all
  | setStatus nodeId status => cases done; exact all

theorem commit_checked {before after : Db} {writes : List Write}
    (done : before.commit writes = some after) (all : ∀ file ∈ before.files, file.checks = true) :
    ∀ file ∈ after.files, file.checks = true := by
  induction writes generalizing before with
  | nil => cases done; exact all
  | cons write rest ih =>
      obtain ⟨middle, one, further⟩ := Option.bind_eq_some_iff.mp done
      exact ih further (write_checked one all)

theorem run_checked {clock : Nat} {labels : List ServiceLabel} {config : ServiceConfig}
    (run : Run (Step (service platform)) (deployed clock) labels config) :
    ∀ file ∈ config.shared.db.files, file.checks = true := by
  induction run with
  | refl => simp [deployed]
  | next ran taken ih =>
      cases taken with
      | start _ _ => exact ih
      | fail _ => exact ih
      | finish _ => exact ih
      | env done =>
          rw [(environment_undisturbed _ done).files]
          exact ih
      | @act thread job request next answer shared at_op done =>
          have same : commits request = [] → ∀ file ∈ shared.db.files, file.checks = true := by
            intro quiet
            rw [exec_db quiet done]
            exact ih
          cases request with
          | commit writes =>
              obtain ⟨db, committed, rfl⟩ := Option.map_eq_some_iff.mp done
              exact commit_checked committed ih
          | _ => exact same rfl

/-! ### The objects on the nodes -/

def Tidy (shared : Shared) : Prop := ∀ node id, shared.objects node id ≠ none → Known shared id

/-- Faults lose or spoil objects; they do not make up any under ids of their own. -/
def Unplanted (shared : Shared) : ServiceLabel → Prop
  | .env (.damage _ id (some _)) => Known shared id
  | _ => True

theorem environment_tidy {before after : Shared} {event : Event}
    (named : ∀ flight ∈ before.flights, ∀ id, flight.request.shard = some id → Known before id)
    (unplanted : Unplanted before (.env event))
    (done : environment platform before event = some after) (tidy : Tidy before) : Tidy after := by
  have known : ∀ id, Known before id → Known after id := by
    intro id known
    unfold Known
    rw [(environment_undisturbed event done).issued]
    exact known
  have same : after.objects = before.objects → Tidy after := by
    intro objects node id present
    rw [objects] at present
    exact known id (tidy node id present)
  cases event with
  | execute handle =>
      obtain ⟨flight, pending, rfl⟩ := Option.map_eq_some_iff.mp done
      intro node id present
      rw [execute_objects] at present
      split at present
      · rename_i here
        exact known id (named flight (List.mem_of_getElem? (pending_found pending).1) id here.2)
      · exact known id (tidy node id present)
  | damage other shardId entry =>
      cases done
      intro node id present
      by_cases here : node = other ∧ id = shardId
      · obtain ⟨rfl, rfl⟩ := here
        rw [store_self] at present
        cases entry with
        | none => exact absurd rfl present
        | some stored => exact unplanted
      · rw [store_other before entry here] at present
        exact tidy node id present
  | lose handle =>
      obtain ⟨flight, -, rfl⟩ := Option.map_eq_some_iff.mp done
      exact same rfl
  | misreply handle response =>
      obtain ⟨flight, -, rfl⟩ := Option.map_eq_some_iff.mp done
      exact same rfl
  | register node =>
      obtain ⟨-, taken⟩ := Option.ite_none_right_eq_some.mp done
      cases taken
      exact same rfl
  | tick _ => cases done; exact same rfl
  | operator _ _ => cases done; exact same rfl

theorem run_tidy {clock : Nat} {labels : List ServiceLabel} {config : ServiceConfig}
    (run : Run (Guarded (fun config label => Unplanted config.shared label)
      (Step (service platform))) (deployed clock) labels config) : Tidy config.shared := by
  induction run with
  | refl => exact fun _ _ present => absurd rfl present
  | next ran taken ih =>
      have reached := guarded_run ran
      obtain ⟨step, unplanted⟩ := taken
      cases step with
      | start _ _ => exact ih
      | fail _ => exact ih
      | finish _ => exact ih
      | env done => exact environment_tidy (run_recorded reached).named unplanted done ih
      | act at_op done =>
          have life := service_step reached (.act at_op done)
          intro node id present
          change Shared.objects _ node id ≠ none at present
          rw [exec_objects done] at present
          exact known_learned (service_safe reached).inv life done id
            (learn_known _ _ id (ih node id present))

end SecureFileSystem.Records
