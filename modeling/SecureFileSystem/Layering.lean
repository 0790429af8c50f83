import SecureFileSystem.Guarantees
import SecureFileSystem.Progress
import SecureFileSystem.Wire

/-!
A second contract on top of the service's own. Every step of a run is already
known to keep the catalogue well formed; a layer adds an invariant, what each
thread and the world do to it, and which steps a run may take, and so only has
to prove these additions.
-/

namespace SecureFileSystem.Layering

open Base Database Fleet Session LifeCycle Program Transition RelyGuarantee Progress Service
  Interference Conduct Guarantees Wire

structure Layer where
  inv : Shared → Prop
  /-- what a step of a thread does -/
  move : Tid → Shared → Shared → Prop
  /-- what the world does by itself -/
  drift : Shared → Shared → Prop
  allowed : Shared → ServiceLabel → Prop

/-- Moves and drift keep the invariant, and the world only drifts. -/
structure Sound (platform : Platform) (layer : Layer) : Prop where
  move_inv : ∀ thread before after, WellFormed before → Life thread before after →
    layer.inv before → layer.move thread before after → layer.inv after
  drift_inv : ∀ before after, WellFormed before → Undisturbed before after →
    layer.inv before → layer.drift before after → layer.inv after
  drifts : ∀ before event after, layer.inv before →
    environment platform before event = some after → layer.allowed before (.env event) →
      layer.drift before after

/-- A step of a thread that the service's own contract lets through. -/
def Lively (shared : Shared) : ServiceLabel → Prop
  | .act thread request answer => ∀ after, exec thread shared request answer = some after →
      Life thread shared after
  | _ => True

def Layer.contract (layer : Layer) (post : Tid → Job → Outcome → Shared → Prop) :
    Contract Shared Tid Job Event Op Res Outcome where
  inv := fun shared => WellFormed shared ∧ layer.inv shared
  rely := fun thread before after => (Undisturbed before after ∧ layer.drift before after) ∨
    ∃ other, other ≠ thread ∧ Life other before after ∧ layer.move other before after
  guar := fun thread before after => Life thread before after ∧ layer.move thread before after
  post := post
  allowed := fun shared label => Lively shared label ∧ layer.allowed shared label

variable {platform : Platform} {layer : Layer} {post : Tid → Job → Outcome → Shared → Prop}
  {thread : Tid} {Out : Type} {result : Out → Shared → Prop} {holds : Shared → Prop}
  {state : Shared}

theorem layer_composes (sound : Sound platform layer) :
    Composes (service platform) (layer.contract post) where
  guar_inv := fun thread before after inv guar =>
    ⟨life_wellFormed guar.1 inv.1, sound.move_inv thread before after inv.1 guar.1 inv.2 guar.2⟩
  guar_rely := fun _ other _ _ different _ guar => Or.inr ⟨other, different.symm, guar⟩
  env_inv := fun before event after inv done may =>
    have undisturbed := environment_undisturbed event done
    ⟨undisturbed_wellFormed undisturbed inv.1, sound.drift_inv before after inv.1 undisturbed inv.2
      (sound.drifts before event after inv.2 done may.2)⟩
  env_rely := fun _ before event after inv done may =>
    Or.inl ⟨environment_undisturbed event done, sound.drifts before event after inv.2 done may.2⟩

/-- To be stable is to survive the world and every step of another thread. -/
theorem layer_stable
    (drifted : ∀ before after, WellFormed before → layer.inv before → Undisturbed before after →
      layer.drift before after → holds before → holds after)
    (moved : ∀ other before after, other ≠ thread → WellFormed before → layer.inv before →
      Life other before after → layer.move other before after → holds before → holds after) :
    Stable (layer.contract post) thread holds := by
  intro before after inv _ relies start
  rcases relies with ⟨undisturbed, drift⟩ | ⟨other, different, life, move⟩
  · exact drifted before after inv.1 inv.2 undisturbed drift start
  · exact moved other before after different inv.1 inv.2 life move start

theorem layer_op {request : Op} {next : Res request → Async Out}
    (stable : Stable (layer.contract post) thread holds) (start : holds state)
    (step : ∀ before answer after, WellFormed before → layer.inv before → holds before →
      exec thread before request answer = some after → Life thread before after →
      layer.allowed before (.act thread request answer) →
        layer.move thread before after ∧
          Safe (service platform) (layer.contract post) thread result (next answer) after) :
    Safe (service platform) (layer.contract post) thread result (.op request next) state :=
  safe_op stable start fun before answer after inv held done may =>
    have life := may.1 after done
    have both := step before answer after inv.1 inv.2 held done life may.2
    ⟨⟨life, both.1⟩, both.2⟩

theorem layer_sure {ready : Op → Shared → Prop} {request : Op} {next : Res request → Async Out}
    (stable : Stable (layer.contract post) thread holds) (start : holds state)
    (answerable : ∀ shared, WellFormed shared → layer.inv shared → holds shared → ready request shared)
    (step : ∀ before answer after, WellFormed before → layer.inv before → holds before →
      exec thread before request answer = some after → Life thread before after →
      layer.allowed before (.act thread request answer) →
        layer.move thread before after ∧
          Sure (service platform) (layer.contract post) thread ready result (next answer) after) :
    Sure (service platform) (layer.contract post) thread ready result (.op request next) state := by
  apply sure_op stable start
  · exact fun later inv held => answerable later inv.1 inv.2 held
  · intro before answer after inv held done may
    have life := may.1 after done
    obtain ⟨moved, sure⟩ := step before answer after inv.1 inv.2 held done life may.2
    exact ⟨⟨life, moved⟩, sure⟩

structure Layer.Lasts (layer : Layer) : Prop where
  drift : ∀ before after, layer.drift before after → Lasting before after
  move : ∀ thread before after, layer.move thread before after → Lasting before after

theorem layer_gather {requests : List (Uuid × NodeRequest)} {next : List Reply → Async Out}
    (base : Nat) (lasts : layer.Lasts) (stable : Stable (layer.contract post) thread holds)
    (start : holds state)
    (late : ∀ shared, layer.inv shared → holds shared → base ≤ shared.flights.length)
    (step : ∀ before request answer after,
      request = .send requests ∨ (∃ handles, request = .await handles) → WellFormed before →
      layer.inv before → holds before → exec thread before request answer = some after →
      Life thread before after → layer.allowed before (.act thread request answer) →
        layer.move thread before after ∧ holds after)
    (rest : ∀ replies later, holds later → Heard base requests replies later →
      Safe (service platform) (layer.contract post) thread result (next replies) later) :
    Safe (service platform) (layer.contract post) thread result ((gather requests).bind next)
      state := by
  apply layer_op stable start
  intro before handles sending wf inv held done life may
  obtain ⟨moved, still⟩ := step before _ handles sending (Or.inl rfl) wf inv held done life may
  obtain ⟨rfl, on⟩ := send_onWire done
  refine ⟨moved, ?_⟩
  have floor := late before inv held
  have waits : Stable (layer.contract post) thread
      (OnWire thread before.flights.length requests) := by
    apply layer_stable
    · exact fun first last _ _ _ drift on => onWire_later (lasts.drift first last drift) on
    · exact fun other first last _ _ _ _ move on => onWire_later (lasts.move other first last move) on
  apply layer_op (stable_and stable waits) ⟨still, on⟩
  intro first replies last wf inv held done life may
  obtain ⟨moved, still⟩ :=
    step first _ replies last (Or.inr ⟨_, rfl⟩) wf inv held.1 done life may
  exact ⟨moved, rest replies last still (await_heard floor held.2 done)⟩

/-- A thread none of whose steps are allowed is safe. -/
theorem layer_idle (idle : ∀ shared request answer, ¬ layer.allowed shared (.act thread request answer))
    (done : ∀ out later, result out later) (prog : Async Out) :
    Safe (service platform) (layer.contract post) thread result prog state := by
  cases prog with
  | ret out => exact fun later _ _ => done out later
  | op request next =>
      exact fun later _ _ answer _ _ may => absurd may.2 (idle later request answer)

def Layer.restrict (layer : Layer) (also : Shared → ServiceLabel → Prop) : Layer :=
  { layer with allowed := fun shared label => layer.allowed shared label ∧ also shared label }

section Restrict
variable {also : Shared → ServiceLabel → Prop}

theorem restrict_sound (sound : Sound platform layer) : Sound platform (layer.restrict also) where
  move_inv := sound.move_inv
  drift_inv := sound.drift_inv
  drifts := fun before event after inv done may => sound.drifts before event after inv done may.1

theorem safe_restrict {prog : Async Out}
    (safe : Safe (service platform) (layer.contract post) thread result prog state) :
    Safe (service platform) ((layer.restrict also).contract post) thread result prog state :=
  safe_contract (layer.contract post) ((layer.restrict also).contract post) (fun _ held => held)
    (fun _ _ held => held) (fun _ _ held => held) (fun _ _ may => ⟨may.1, may.2.1⟩) safe

end Restrict

theorem step_lively {clock : Nat} {labels : List ServiceLabel} {config after : ServiceConfig}
    {label : ServiceLabel} (reached : Run (Step (service platform)) (deployed clock) labels config)
    (taken : Step (service platform) config label after) : Lively config.shared label := by
  cases taken with
  | act at_op done =>
      intro other same
      rw [← Option.some.inj (done.symm.trans same)]
      exact service_step reached (.act at_op done)
  | _ => trivial

/-- A run may be told to do what every step of the service does anyway. -/
theorem run_also {guard also : ServiceConfig → ServiceLabel → Prop} {clock : Nat}
    {earlier labels : List ServiceLabel} {start config : ServiceConfig}
    (known : ∀ labels config label after,
      Run (Step (service platform)) (deployed clock) labels config →
        Step (service platform) config label after → also config label)
    (reached : Run (Step (service platform)) (deployed clock) earlier start)
    (run : Run (Guarded guard (Step (service platform))) start labels config) :
    Run (Guarded (fun config label => guard config label ∧ also config label)
      (Step (service platform))) start labels config := by
  induction run with
  | refl => exact .refl
  | next ran taken ih =>
      have before := run_append reached (guarded_run ran)
      exact .next ih ⟨taken.1, taken.2, known _ _ _ _ before taken.1⟩

/-- A run whose steps a layer allows keeps to its contract. -/
theorem layer_contract
    {clock : Nat} {earlier labels : List ServiceLabel} {start config : ServiceConfig}
    (reached : Run (Step (service platform)) (deployed clock) earlier start)
    (run : Run (Guarded (fun config label => layer.allowed config.shared label)
      (Step (service platform))) start labels config) :
    Run (Allowed (service platform) (layer.contract post)) start labels config :=
  run_mono (fun _ _ _ taken => ⟨taken.1, taken.2.2, taken.2.1⟩)
    (run_also (fun _ _ _ _ before taken => step_lively before taken) reached run)

theorem layer_act {clock : Nat} {labels : List ServiceLabel} {config : ServiceConfig}
    (reached : Run (Step (service platform)) (deployed clock) labels config) {job : Job}
    {request : Op} {next : Res request → Async Outcome} {answer : Res request} {after : Shared}
    (running : config.threads thread = .running job (.op request next))
    (done : exec thread config.shared request answer = some after)
    (may : layer.allowed config.shared (.act thread request answer)) :
    Allowed (service platform) (layer.contract post) config (.act thread request answer)
      { config.set thread (.running job (next answer)) with shared := after } := by
  have step : Step (service platform) config (.act thread request answer)
      { config.set thread (.running job (next answer)) with shared := after } :=
    .act running done
  exact ⟨step, step_lively reached step, may⟩

/-- Runs whose steps a layer allows stay within its contract. -/
theorem layer_run (sound : Sound platform layer)
    (begins : ∀ thread job shared, WellFormed shared → layer.inv shared →
      starts thread job = true → layer.allowed shared (.start thread job) →
        Safe (service platform) (layer.contract post) thread (post thread job)
          (program platform job) shared)
    {clock : Nat} {earlier labels : List ServiceLabel} {start config : ServiceConfig}
    (reached : Run (Step (service platform)) (deployed clock) earlier start)
    (all : AllSafe (service platform) (layer.contract post) start)
    (run : Run (Guarded (fun config label => layer.allowed config.shared label)
      (Step (service platform))) start labels config) :
    AllSafe (service platform) (layer.contract post) config :=
  run_safe (layer_composes sound) (fun thread job shared inv may allowed =>
    begins thread job shared inv.1 inv.2 may allowed.2) all (layer_contract reached run)

end SecureFileSystem.Layering
